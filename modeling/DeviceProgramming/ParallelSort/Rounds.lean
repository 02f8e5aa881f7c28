import DeviceProgramming.Machine.Barrier
import DeviceProgramming.ParallelSort.Moves

namespace DeviceProgramming.ParallelSort

variable {n nthreads : ℕ}

/-- The statements between `pthread_mutex_lock` and `pthread_mutex_unlock`. -/
def held : Pc → List Lock
  | .decrement | .border _ _ | .borderSwap _ | .post _ | .print _ | .exit | .unlock
  | .increment | .post2 _ | .unlock2 => [.barrier]
  | .outer _ | .inner _ _ | .swap _ _ | .lock | .wait | .lock2 | .wait2 => []

theorem Move.held {t : Fin nthreads} {m m' : Memory nthreads} {pc next : Pc} (move : Move n t m pc m' next)
    (unlocked : pc ≠ .lock ∧ pc ≠ .lock2 ∧ pc ≠ .unlock ∧ pc ≠ .unlock2) : held next = held pc := by
  cases move <;> first | rfl | simp at unlocked

theorem disciplined : (program n nthreads).Disciplined fun _ => held := by
  apply Program.Disciplined.of_stack
  case acquire =>
    intro t pc lock next here
    cases pc <;> cases here <;> rfl
  case release =>
    intro t pc lock next here
    cases pc <;> cases here <;> simp [held]
  case sleep => intro t pc chan; exact chan.elim
  case wakeup => intro t pc chan; exact chan.elim
  case exec =>
    intro t pc effect input m m' next here run
    refine (move_of_exec here run).held ⟨?_, ?_, ?_, ?_⟩ <;> rintro rfl <;> cases here

theorem owned_of_reach {vec : ℤ → ℤ} {s : State nthreads} (reach : (sorting n nthreads vec).Reach s) :
    s.Owned fun _ => held := by
  refine Program.owned_of_reach disciplined (fun s begun => ?_) reach
  subst begun
  exact Threads.owned_start (fun _ => rfl) fun t => ⟨_, rfl, rfl⟩

/-- The place of a thread in the barrier. -/
def Pc.place (nthreads : ℕ) : Pc → Barrier.Place
  | outer _ | inner _ _ | swap _ _ | lock | decrement => .arriving
  | border _ _ | borderSwap _ | print _ | exit => .opening nthreads
  | post i => .opening (nthreads - i)
  | unlock | wait => .gathered
  | lock2 | increment => .passed
  | post2 i => .closing (nthreads - i)
  | unlock2 | wait2 => .counted

/-- The barrier that the program implements. -/
def barrier (s : State nthreads) : Barrier.State (Fin nthreads) where
  counter := s.mem.counter
  sem := s.mem.sem
  sem2 := s.mem.sem2
  round := s.mem.round
  place t := (s.pc t).place nthreads

/-- Each move leaves the barrier alone or is one of its steps. -/
theorem Move.barrier_step {s s' : State nthreads} {t : Fin nthreads} {next : Pc}
    (move : Move n t s.mem (s.pc t) s'.mem next) (moved : s'.pc = Function.update s.pc t next) :
    barrier s' = barrier s ∨ Barrier.Step t (barrier s) (barrier s') := by
  have place : (barrier s').place = Function.update (barrier s).place t (next.place nthreads) := by
    funext u
    by_cases here : u = t
    · subst here; simp [barrier, moved]
    · simp [barrier, moved, here]
  have after : barrier s' = ⟨s'.mem.counter, s'.mem.sem, s'.mem.sem2, s'.mem.round,
      Function.update (barrier s).place t (next.place nthreads)⟩ := by
    rw [← place]
    rfl
  have stutter {p : Barrier.Place} (same : (barrier s).place t = p) :
      (⟨s.mem.counter, s.mem.sem, s.mem.sem2, s.mem.round, Function.update (barrier s).place t p⟩ :
        Barrier.State (Fin nthreads)) = barrier s := by
    rw [← same, Function.update_eq_self]
    rfl
  have here : (barrier s).place t = (s.pc t).place nthreads := rfl
  rw [after]
  generalize s.pc t = pc at move here
  generalize s'.mem = mem at move
  cases move with
  | decrementLast last =>
    have arrived := Barrier.Step.arriveLast here last
    rw [Fintype.card_fin] at arrived
    exact Or.inr arrived
  | decrement more => exact Or.inr (.arrive here more)
  | @postNext i within =>
    have left : nthreads - i = nthreads - (i + 1) + 1 := by omega
    simp only [Pc.place, left] at here
    exact Or.inr (.give here)
  | @postLast i outside =>
    have left : nthreads - i = 0 := by omega
    simp only [Pc.place, left] at here
    exact Or.inr (.opened here)
  | wait permit => exact Or.inr (.pass here permit)
  | incrementLast last =>
    have counted := Barrier.Step.countLast here (by rw [Fintype.card_fin]; exact last)
    rw [Fintype.card_fin] at counted
    exact Or.inr counted
  | increment more => exact Or.inr (.count here (by rw [Fintype.card_fin]; exact more))
  | @post2Next i within =>
    have left : nthreads - i = nthreads - (i + 1) + 1 := by omega
    simp only [Pc.place, left] at here
    exact Or.inr (.give2 here)
  | @post2Last i outside =>
    have left : nthreads - i = 0 := by omega
    simp only [Pc.place, left] at here
    exact Or.inr (.closed here)
  | wait2 permit => exact Or.inr (.leave here permit)
  | borderSwapped | borderSorted => exact Or.inl (stutter here)
  | _ => exact Or.inl (stutter here)

section
variable {vec : ℤ → ℤ} {s : State nthreads}

theorem barrier_launch (n : ℕ) {nthreads : ℕ} (vec : ℤ → ℤ) :
    barrier (launch n nthreads vec) = Barrier.start (Fin nthreads) := by
  simp [barrier, launch, Barrier.start, Threads.pc, Pc.place]

theorem barrier_inv (positive : 1 ≤ nthreads) (reach : (sorting n nthreads vec).Reach s) :
    Barrier.Inv (barrier s) := by
  have some : Nonempty (Fin nthreads) := ⟨⟨0, positive⟩⟩
  refine reach.invariant (motive := fun s => Barrier.Inv (barrier s)) ?_ ?_
  · intro s begun
    rw [begun, barrier_launch]
    exact Barrier.inv_start
  · intro s s' label earlier inv _ moved
    obtain ⟨next, move, pcs⟩ := move_of_step earlier (Program.step_of_next moved).2
    rcases move.barrier_step pcs with same | step
    · rw [same]
      exact inv
    · exact inv.step step

/-- A thread compares or swaps inside its region. -/
def Pc.InRegion : Pc → Prop
  | outer _ | inner _ _ | swap _ _ => True
  | _ => False

/-- A thread is in the block of the last thread to reach the barrier. -/
def Pc.InBorderBlock : Pc → Prop
  | border _ _ | borderSwap _ | post _ | print _ | exit => True
  | _ => False

/-- A thread that waits neither for the mutex nor for a permit has an enabled step. -/
theorem enabled {t : Fin nthreads} (live : s.mem.exited = false) (running : s.thread t = .run (s.pc t))
    (free : s.pc t = .lock ∨ s.pc t = .lock2 → s.owner .barrier = none)
    (permits : s.pc t = .wait ∨ s.pc t = .wait2 → ¬ (barrier s).Waits t) :
    ∃ s', (sorting n nthreads vec).next s (t, ()) = some s' := by
  change ∃ s', (program n nthreads).step s t () = some s'
  have place : (barrier s).place t = (s.pc t).place nthreads := rfl
  simp only [Barrier.State.Waits, place] at permits
  cases here : s.pc t <;> rw [here] at running free permits
  case lock | lock2 => simp [Program.step, program, live, running, instr, free]
  case wait =>
    have some : s.mem.sem ≠ 0 := fun empty => permits (Or.inl rfl) (Or.inl ⟨rfl, empty⟩)
    simp [Program.step, program, live, running, instr, some]
  case wait2 =>
    have some : s.mem.sem2 ≠ 0 := fun empty => permits (Or.inr rfl) (Or.inr ⟨rfl, empty⟩)
    simp [Program.step, program, live, running, instr, some]
  all_goals simp [Program.step, program, live, running, instr]

/-- Until `exit` is called the holder of the mutex can move, and when nobody
holds it, one of the threads that do not wait for a permit. -/
theorem exists_enabled (positive : 1 ≤ nthreads) (reach : (sorting n nthreads vec).Reach s)
    (live : s.mem.exited = false) : ∃ t s', (sorting n nthreads vec).next s (t, ()) = some s' := by
  have some : Nonempty (Fin nthreads) := ⟨⟨0, positive⟩⟩
  have running := running_of_reach reach
  cases lock : s.owner .barrier with
  | none =>
    obtain ⟨t, moves⟩ := (barrier_inv positive reach).exists_not_waits
    exact ⟨t, enabled live (running t) (fun _ => lock) fun _ => moves⟩
  | some t =>
    have holding := ((owned_of_reach reach).owner_iff .barrier t).mp lock
    rw [running t] at holding
    change Lock.barrier ∈ held (s.pc t) at holding
    refine ⟨t, enabled live (running t) ?_ ?_⟩
    · rintro (at' | at') <;> rw [at'] at holding <;> cases holding
    · rintro (at' | at') <;> rw [at'] at holding <;> cases holding

/-- The barrier in every reachable state: the counter and the semaphores stay in
range, rounds differ by at most one, the borders are swapped while nobody works
in a region, and until `exit` some thread has an enabled step. -/
theorem barrier_reusable (n : ℕ) (positive : 1 ≤ nthreads) (reach : (sorting n nthreads vec).Reach s) :
    (0 ≤ s.mem.counter ∧ s.mem.counter ≤ nthreads) ∧ s.mem.sem ≤ nthreads ∧ s.mem.sem2 ≤ nthreads ∧
    (∀ t u, s.mem.round t ≤ s.mem.round u + 1) ∧
    (∀ t u, (s.pc t).InBorderBlock → ¬ (s.pc u).InRegion) ∧
    (s.mem.exited = false → ∃ t s', (sorting n nthreads vec).next s (t, ()) = some s') := by
  have inv := barrier_inv positive reach
  have bounds := inv.bounds
  rw [Fintype.card_fin] at bounds
  refine ⟨⟨bounds.1, bounds.2.1⟩, bounds.2.2.1, bounds.2.2.2, inv.round_le, ?_, exists_enabled positive reach⟩
  intro t u inBlock inRegion
  have arriving : (barrier s).place u = .arriving := by
    change (s.pc u).place nthreads = _
    cases here : s.pc u <;> rw [here] at inRegion <;> first | rfl | exact inRegion.elim
  have opening : ∃ left, (barrier s).place t = .opening left := by
    change ∃ left, (s.pc t).place nthreads = _
    cases here : s.pc t <;> rw [here] at inBlock <;> first | exact ⟨_, rfl⟩ | exact inBlock.elim
  obtain ⟨left, opens⟩ := opening
  exact inv.not_arriving_of_opening opens u arriving

set_option maxRecDepth 10000 in
/-- Two threads sort two numbers up to the end of their first round. -/
theorem barrier_reusable_twoThreads : ∃ s : State 2, s.mem.round 0 = 1 ∧
    s.mem.round 0 ≤ s.mem.round 1 + 1 ∧ ∃ t s', (sorting 2 2 fun x => -x).next s (t, ()) = some s' := by
  have computed : ((sorting 2 2 fun x => -x).run (schedule [(0, (), 6), (1, (), 16), (0, (), 8)])
      (launch 2 2 fun x => -x)).map (fun s => (s.mem.round 0, s.mem.exited)) = some (1, false) := by decide
  obtain ⟨s, reached, state⟩ := Option.map_eq_some_iff.mp computed
  simp only [Prod.mk.injEq] at state
  obtain ⟨_, _, _, rounds, _, enabled⟩ :=
    barrier_reusable 2 (by decide) (.of_run (.start rfl) reached)
  exact ⟨s, state.1, rounds 0 1, enabled state.2⟩

end

end DeviceProgramming.ParallelSort
