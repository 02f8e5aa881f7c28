import DeviceProgramming.ParallelSort.Regions
import DeviceProgramming.ParallelSort.Rounds

namespace DeviceProgramming.ParallelSort

variable {n nthreads : ℕ}

/-- A region is in order. -/
def InOrder (n : ℕ) {nthreads : ℕ} (vec : ℤ → ℤ) (t : Fin nthreads) : Prop :=
  MonotoneOn vec (Set.Icc (region n nthreads t).left (region n nthreads t).right)

/-- What thread `t` has sorted of its region at a statement. -/
def Pc.Sorts (n : ℕ) {nthreads : ℕ} (vec : ℤ → ℤ) (t : Fin nthreads) : Pc → Prop
  | outer cur => (region n nthreads t).left ≤ cur ∧ cur ≤ (region n nthreads t).right + 1 ∧
      MonotoneOn vec (Set.Icc (region n nthreads t).left (cur - 1))
  | inner cur tmp => (region n nthreads t).left ≤ tmp ∧ tmp ≤ cur ∧ cur ≤ (region n nthreads t).right ∧
      SortedExcept vec (region n nthreads t).left cur tmp
  | swap cur tmp => (region n nthreads t).left + 1 ≤ tmp ∧ tmp ≤ cur ∧
      cur ≤ (region n nthreads t).right ∧ SortedExcept vec (region n nthreads t).left cur tmp ∧
      vec tmp < vec (tmp - 1)
  | lock | decrement => InOrder n vec t
  | border i _ => 1 ≤ i
  | borderSwap i => 1 ≤ i ∧ i < nthreads
  | _ => True

/-- How a statement changes the array: not at all, by a swap in the region of its
thread, or by a swap at a border. -/
theorem Move.vec_cases {t : Fin nthreads} {m m' : Memory nthreads} {pc next : Pc}
    (move : Move n t m pc m' next) : m'.vec = m.vec ∨
    (∃ cur tmp, pc = .swap cur tmp ∧ m'.vec = DeviceProgramming.swap m.vec (tmp - 1) tmp) ∨
    ∃ i, pc = .borderSwap i ∧ m'.vec = DeviceProgramming.swap m.vec
      (i * regionLength n nthreads - 1) (i * regionLength n nthreads) := by
  cases move with
  | swap => exact Or.inr (Or.inl ⟨_, _, rfl, rfl⟩)
  | borderSwap => exact Or.inr (Or.inr ⟨_, rfl, rfl⟩)
  | _ => exact Or.inl rfl

/-- The own statement of a thread keeps what it knows about its region. -/
theorem Move.sorts {t : Fin nthreads} {m m' : Memory nthreads} {pc next : Pc} (fits : Fits n nthreads)
    (move : Move n t m pc m' next) (sorts : pc.Sorts n m.vec t) : next.Sorts n m'.vec t := by
  cases move with
  | @outerIn cur inside =>
    obtain ⟨lower, upper, sorted⟩ := sorts
    exact ⟨lower, le_refl cur, inside, sortedExcept_last sorted⟩
  | @outerOut cur outside =>
    obtain ⟨lower, upper, sorted⟩ := sorts
    exact sorted.mono (Set.Icc_subset_Icc_right (by omega))
  | innerSwap above greater =>
    obtain ⟨lower, le, inside, sorted⟩ := sorts
    exact ⟨above, le, inside, sorted, greater⟩
  | @innerOut cur tmp settled =>
    obtain ⟨lower, le, inside, sorted⟩ := sorts
    refine ⟨by omega, by omega, ?_⟩
    rw [add_sub_cancel_right]
    exact sorted.monotoneOn settled
  | @swap cur tmp =>
    obtain ⟨above, le, inside, sorted, greater⟩ := sorts
    exact ⟨by omega, by omega, inside, sorted.swap greater above le⟩
  | lock => exact sorts
  | decrementLast => exact le_refl 1
  | borderSwaps within => exact ⟨sorts, within⟩
  | borderNext | borderSwap => exact Nat.le_succ_of_le (by first | exact sorts | exact sorts.1)
  | wait2 =>
    have bounds := region_bounds fits t
    refine ⟨le_refl _, by omega, ?_⟩
    intro x inX
    have empty := inX.1.trans inX.2
    omega
  | _ => trivial

/-- The swaps of another region do not disturb a thread. -/
theorem Pc.Sorts.swap {vec : ℤ → ℤ} {t : Fin nthreads} {pc : Pc} {x y : ℤ} (sorts : pc.Sorts n vec t)
    (first : x < (region n nthreads t).left ∨ (region n nthreads t).right < x)
    (second : y < (region n nthreads t).left ∨ (region n nthreads t).right < y) :
    pc.Sorts n (DeviceProgramming.swap vec x y) t := by
  cases pc with
  | outer cur =>
    obtain ⟨lower, upper, sorted⟩ := sorts
    exact ⟨lower, upper, monotoneOn_swap sorted (by omega) (by omega)⟩
  | inner cur tmp =>
    obtain ⟨lower, le, inside, sorted⟩ := sorts
    exact ⟨lower, le, inside, sortedExcept_swap sorted (by omega) (by omega)⟩
  | swap cur tmp =>
    obtain ⟨above, le, inside, sorted, greater⟩ := sorts
    refine ⟨above, le, inside, sortedExcept_swap sorted (by omega) (by omega), ?_⟩
    rw [swap_other _ (by omega) (by omega), swap_other _ (by omega) (by omega)]
    exact greater
  | lock | decrement => exact monotoneOn_swap sorts first second
  | _ => exact sorts

/-- Beyond the first part of the barrier a thread relies on nothing in its region. -/
theorem Pc.Sorts.of_not_arriving {vec vec' : ℤ → ℤ} {t : Fin nthreads} {pc : Pc} (sorts : pc.Sorts n vec t)
    (beyond : pc.place nthreads ≠ .arriving) : pc.Sorts n vec' t := by
  cases pc with
  | outer | inner | swap | lock | decrement => exact absurd rfl beyond
  | _ => exact sorts

/-- The borders before `i` are in order. -/
def BordersInOrder (n nthreads : ℕ) (vec : ℤ → ℤ) (i : ℕ) : Prop :=
  ∀ j : ℕ, 1 ≤ j → j < i → vec (j * regionLength n nthreads - 1) ≤ vec (j * regionLength n nthreads)

/-- What the last thread to reach the barrier has checked: as long as nothing
was swapped, all regions and the borders so far are in order. -/
def Pc.Checked (n nthreads : ℕ) (vec : ℤ → ℤ) : Pc → Prop
  | border i false => (∀ t : Fin nthreads, InOrder n vec t) ∧ BordersInOrder n nthreads vec i
  | print _ | exit => MonotoneOn vec (Set.Icc 0 (n - 1))
  | _ => True

theorem Move.checked {t : Fin nthreads} {m m' : Memory nthreads} {pc next : Pc} (fits : Fits n nthreads)
    (move : Move n t m pc m' next) (opening : pc.place nthreads ≠ .arriving)
    (checked : pc.Checked n nthreads m.vec) : next.Checked n nthreads m'.vec := by
  cases move with
  | decrementLast => exact absurd rfl opening
  | @borderNext i swapped within ordered =>
    cases swapped with
    | true => trivial
    | false =>
      refine ⟨checked.1, fun j one before => ?_⟩
      rcases (by omega : j < i ∨ j = i) with earlier | rfl
      · exact checked.2 j one earlier
      · exact ordered
  | @borderSorted i outside =>
    exact monotoneOn_of_regions fits checked.1 fun j one before => checked.2 j one (by omega)
  | printNext | printLast | exit => exact checked
  | _ => trivial

/-- In the first part of the barrier the regions of the threads that have arrived
are in order; in the second part the last thread's checks hold. -/
def Regular (n : ℕ) {nthreads : ℕ} (s : State nthreads) : Prop :=
  (∃ r, Barrier.Gathering r (barrier s) ∧ ∀ t, (barrier s).place t = .gathered → InOrder n s.mem.vec t) ∨
  ∃ r, Barrier.Releasing r (barrier s) ∧ ∀ t, (s.pc t).Checked n nthreads s.mem.vec

/-- The data invariant of the program on the array `vec`. -/
structure Sound (n : ℕ) {nthreads : ℕ} (vec : ℤ → ℤ) (s : State nthreads) : Prop where
  sorts : ∀ t, (s.pc t).Sorts n s.mem.vec t
  regular : Regular n s
  permuted : (contents n s.mem.vec).Perm (contents n vec)

theorem Move.gathers {t : Fin nthreads} {m m' : Memory nthreads} {pc next : Pc}
    (move : Move n t m pc m' next) (gathered : next.place nthreads = .gathered) : m'.vec = m.vec ∧
    (pc = .decrement ∨ pc.place nthreads = .gathered ∨ ∃ left, pc.place nthreads = .opening left) := by
  cases move with
  | decrement => exact ⟨rfl, Or.inl rfl⟩
  | unlock => exact ⟨rfl, Or.inr (Or.inl rfl)⟩
  | postLast => exact ⟨rfl, Or.inr (Or.inr ⟨_, rfl⟩)⟩
  | _ => cases gathered

theorem Move.arrives {t : Fin nthreads} {m m' : Memory nthreads} {pc next : Pc}
    (move : Move n t m pc m' next) (arriving : pc.place nthreads = .arriving)
    (arrived : next.place nthreads ≠ .arriving) (last : m.counter - 1 = 0) :
    m'.vec = m.vec ∧ pc = .decrement ∧ next = .border 1 false := by
  cases move with
  | decrementLast => exact ⟨rfl, rfl, rfl⟩
  | decrement more => exact absurd last more
  | outerIn | outerOut | innerSwap | innerOut | swap | lock | wait2 => exact absurd rfl arrived
  | _ => cases arriving

/-- Only a thread in the block of the last arrival has something to check. -/
theorem Pc.checked_of_place {vec : ℤ → ℤ} {pc : Pc} (outside : ∀ left, pc.place nthreads ≠ .opening left) :
    pc.Checked n nthreads vec := by
  cases pc with
  | border | print | exit => exact absurd rfl (outside nthreads)
  | _ => trivial

theorem held_of_opening {pc : Pc} {left : ℕ} (opening : pc.place nthreads = .opening left) :
    Lock.barrier ∈ held pc := by
  cases pc with
  | border | borderSwap | post | print | exit => exact List.mem_singleton.mpr rfl
  | _ => cases opening

section
variable {vec : ℤ → ℤ} {s s' : State nthreads} {t : Fin nthreads} {next : Pc}

theorem Sound.permuted_step (fits : Fits n nthreads) (sound : Sound n vec s)
    (move : Move n t s.mem (s.pc t) s'.mem next) : (contents n s'.mem.vec).Perm (contents n vec) := by
  have sorts := sound.sorts t
  rcases move.vec_cases with same | ⟨cur, tmp, here, swapped⟩ | ⟨i, here, swapped⟩
  · rw [same]
    exact sound.permuted
  · rw [here] at sorts
    obtain ⟨above, le, inside, _⟩ := sorts
    have bounds := region_bounds fits t
    rw [swapped]
    exact (contents_swap _ (by omega) (by omega)).trans sound.permuted
  · rw [here] at sorts
    obtain ⟨one, within⟩ := sorts
    obtain ⟨first, last⟩ := border_inside fits one within
    rw [swapped]
    exact (contents_swap _ (by omega) (by omega)).trans sound.permuted

theorem Sound.sorts_step (fits : Fits n nthreads) (sound : Sound n vec s) (inv : Barrier.Inv (barrier s))
    (move : Move n t s.mem (s.pc t) s'.mem next) (moved : s'.pc = Function.update s.pc t next)
    (u : Fin nthreads) : (s'.pc u).Sorts n s'.mem.vec u := by
  rw [moved]
  by_cases own : u = t
  · subst own
    rw [Function.update_self]
    exact move.sorts fits (sound.sorts u)
  · rw [Function.update_of_ne own]
    have sorts := sound.sorts t
    rcases move.vec_cases with same | ⟨cur, tmp, here, swapped⟩ | ⟨i, here, swapped⟩
    · rw [same]
      exact sound.sorts u
    · rw [here] at sorts
      obtain ⟨above, le, inside, _⟩ := sorts
      rw [swapped]
      exact (sound.sorts u).swap (region_disjoint (Ne.symm own) (by omega) (by omega))
        (region_disjoint (Ne.symm own) (by omega) (by omega))
    · have opening : (barrier s).place t = .opening nthreads := by
        change (s.pc t).place nthreads = _
        rw [here]
        rfl
      exact (sound.sorts u).of_not_arriving (inv.not_arriving_of_opening opening u)

/-- While the threads gather, nobody disturbs the region of one that has arrived. -/
theorem inOrder_step {r : ℕ} {u : Fin nthreads} (gathering : Barrier.Gathering r (barrier s))
    (sorts : (s.pc t).Sorts n s.mem.vec t) (move : Move n t s.mem (s.pc t) s'.mem next) (other : u ≠ t)
    (ordered : InOrder n s.mem.vec u) : InOrder n s'.mem.vec u := by
  rcases move.vec_cases with same | ⟨cur, tmp, here, swapped⟩ | ⟨i, here, swapped⟩
  · rw [same]
    exact ordered
  · rw [here] at sorts
    obtain ⟨above, le, inside, _⟩ := sorts
    rw [swapped]
    exact monotoneOn_swap ordered (region_disjoint (Ne.symm other) (by omega) (by omega))
      (region_disjoint (Ne.symm other) (by omega) (by omega))
  · have place := gathering.place t
    change ((s.pc t).place nthreads).Gathers r _ at place
    rw [here] at place
    exact place.elim

/-- While the threads are released, nobody disturbs what another one has checked. -/
theorem checked_step {r : ℕ} {u : Fin nthreads} (releasing : Barrier.Releasing r (barrier s))
    (owned : s.Owned fun _ => held) (running : ∀ t, s.thread t = .run (s.pc t))
    (move : Move n t s.mem (s.pc t) s'.mem next) (other : u ≠ t)
    (checked : (s.pc u).Checked n nthreads s.mem.vec) : (s.pc u).Checked n nthreads s'.mem.vec := by
  rcases move.vec_cases with same | ⟨cur, tmp, here, swapped⟩ | ⟨i, here, swapped⟩
  · rw [same]
    exact checked
  · have place := releasing.place t
    change ((s.pc t).place nthreads).Releases r _ at place
    rw [here] at place
    exact place.elim
  · refine Pc.checked_of_place fun left opening => other ?_
    have atBorder : s.thread t = .run (.borderSwap i) := by rw [running t, here]
    exact owned.unique_run (running u) atBorder (held_of_opening opening) (List.mem_singleton.mpr rfl)

theorem barrier_place (moved : s'.pc = Function.update s.pc t next) :
    (barrier s').place t = next.place nthreads ∧ ∀ u, u ≠ t → (barrier s').place u = (barrier s).place u := by
  refine ⟨by simp [barrier, moved], fun u other => by simp [barrier, moved, other]⟩

/-- The threads go on gathering: a thread that arrives has sorted its region. -/
theorem Sound.gathered_step {r : ℕ} (sound : Sound n vec s) (gathering : Barrier.Gathering r (barrier s))
    (ordered : ∀ t, (barrier s).place t = .gathered → InOrder n s.mem.vec t)
    (move : Move n t s.mem (s.pc t) s'.mem next) (moved : s'.pc = Function.update s.pc t next)
    (u : Fin nthreads) (gathered : (barrier s').place u = .gathered) : InOrder n s'.mem.vec u := by
  by_cases own : u = t
  · subst own
    rw [(barrier_place moved).1] at gathered
    obtain ⟨same, here | here | ⟨left, here⟩⟩ := move.gathers gathered
    · have sorts := sound.sorts u
      rw [here] at sorts
      rw [same]
      exact sorts
    · rw [same]
      exact ordered u here
    · have place := gathering.place u
      change ((s.pc u).place nthreads).Gathers r _ at place
      rw [here] at place
      exact place.elim
  · rw [(barrier_place moved).2 u own] at gathered
    exact inOrder_step gathering (sound.sorts t) move own (ordered u gathered)

/-- The last thread to arrive finds all regions in order. -/
theorem Sound.opened_step {r : ℕ} (sound : Sound n vec s) (gathering : Barrier.Gathering r (barrier s))
    (ordered : ∀ t, (barrier s).place t = .gathered → InOrder n s.mem.vec t)
    (move : Move n t s.mem (s.pc t) s'.mem next) (moved : s'.pc = Function.update s.pc t next)
    (releasing : Barrier.Releasing r (barrier s')) (arriving : (barrier s).place t = .arriving)
    (last : s.mem.counter - 1 = 0) (u : Fin nthreads) : (s'.pc u).Checked n nthreads s'.mem.vec := by
  have others (v : Fin nthreads) (other : v ≠ t) : (barrier s).place v = .gathered :=
    gathering.others_gathered arriving last other
  rw [moved]
  by_cases own : u = t
  · subst own
    have arrived : next.place nthreads ≠ .arriving := by
      rw [← (barrier_place moved).1]
      intro stays
      have place := releasing.place u
      rw [stays] at place
      exact place
    obtain ⟨same, here, rfl⟩ := move.arrives arriving arrived last
    rw [Function.update_self, same]
    refine ⟨fun v => ?_, fun j one before => by omega⟩
    by_cases self : v = u
    · subst self
      have sorts := sound.sorts v
      rw [here] at sorts
      exact sorts
    · exact ordered v (others v self)
  · rw [Function.update_of_ne own]
    have outside (left : ℕ) : (s.pc u).place nthreads ≠ .opening left := by
      intro opening
      cases (others u own).symm.trans opening
    exact Pc.checked_of_place outside

theorem Sound.regular_step (fits : Fits n nthreads) (sound : Sound n vec s) (owned : s.Owned fun _ => held)
    (running : ∀ t, s.thread t = .run (s.pc t))
    (move : Move n t s.mem (s.pc t) s'.mem next) (moved : s'.pc = Function.update s.pc t next) :
    Regular n s' := by
  rcases sound.regular with ⟨r, gathering, ordered⟩ | ⟨r, releasing, checked⟩
  · have stays (gathers : Barrier.Gathering r (barrier s')) : Regular n s' :=
      Or.inl ⟨r, gathers, sound.gathered_step gathering ordered move moved⟩
    rcases move.barrier_step moved with same | step
    · exact stays (same ▸ gathering)
    · rcases gathering.step step with gathers | ⟨releases, arriving, last⟩
      · exact stays gathers
      · exact Or.inr ⟨r, releases, sound.opened_step gathering ordered move moved releases arriving last⟩
  · have stays (releases : Barrier.Releasing r (barrier s')) : Regular n s' := by
      refine Or.inr ⟨r, releases, fun u => ?_⟩
      rw [moved]
      by_cases own : u = t
      · subst own
        rw [Function.update_self]
        refine move.checked fits (fun arriving => ?_) (checked u)
        have place := releasing.place u
        change ((s.pc u).place nthreads).Releases r _ at place
        rw [arriving] at place
        exact place
      · rw [Function.update_of_ne own]
        exact checked_step releasing owned running move own (checked u)
    rcases move.barrier_step moved with same | step
    · exact stays (same ▸ releasing)
    · rcases releasing.step step with releases | ⟨gathers, counted⟩
      · exact stays releases
      · refine Or.inl ⟨r + 1, gathers, fun u gathered => ?_⟩
        rcases counted u with at' | ⟨left, at'⟩
        · cases gathered.symm.trans at'
        · cases gathered.symm.trans at'

theorem sound_launch (fits : Fits n nthreads) (vec : ℤ → ℤ) : Sound n vec (launch n nthreads vec) where
  sorts t := by
    have bounds := region_bounds fits t
    refine ⟨le_refl _, by omega, ?_⟩
    intro x inX
    have empty := inX.1.trans inX.2
    omega
  regular := by
    have some : Nonempty (Fin nthreads) := ⟨⟨0, fits.positive⟩⟩
    refine Or.inl ⟨0, ?_, fun t gathered => by cases gathered⟩
    rw [barrier_launch]
    exact Barrier.gathering_start
  permuted := List.Perm.refl _

theorem sound_of_reach (fits : Fits n nthreads) (reach : (sorting n nthreads vec).Reach s) : Sound n vec s := by
  refine reach.invariant (fun s begun => begun ▸ sound_launch fits vec) ?_
  intro s s' label earlier sound _ stepped
  obtain ⟨next, move, moved⟩ := move_of_step earlier (Program.step_of_next stepped).2
  exact
    { sorts := sound.sorts_step fits (barrier_inv fits.positive earlier) move moved
      regular := sound.regular_step fits (owned_of_reach earlier) (running_of_reach earlier) move moved
      permuted := sound.permuted_step fits move }

/-- When a thread calls `exit`, the whole array is in order and a permutation of
the array that the threads were launched on. -/
theorem sorted_at_exit (fits : Fits n nthreads) (vec : ℤ → ℤ) (reach : (sorting n nthreads vec).Reach s)
    (exits : s.thread t = .run .exit) :
    (contents n s.mem.vec).Pairwise (· ≤ ·) ∧ (contents n s.mem.vec).Perm (contents n vec) := by
  have sound := sound_of_reach fits reach
  have here : s.pc t = .exit := by rw [Threads.pc, exits, Activity.pc_run]
  refine ⟨pairwise_contents ?_, sound.permuted⟩
  rcases sound.regular with ⟨r, gathering, _⟩ | ⟨r, _, checked⟩
  · have place := gathering.place t
    change ((s.pc t).place nthreads).Gathers r _ at place
    rw [here] at place
    exact place.elim
  · have sorted := checked t
    rw [here] at sorted
    exact sorted

set_option maxRecDepth 10000 in
/-- Two threads sort two numbers in two rounds. -/
theorem sorted_at_exit_twoThreads : ∃ s : State 2, s.thread 0 = .run .exit ∧
    (contents 2 s.mem.vec).Pairwise (· ≤ ·) ∧ (contents 2 s.mem.vec).Perm (contents 2 fun x => -x) := by
  have computed : ((sorting 2 2 fun x => -x).run
      (schedule [(0, (), 6), (1, (), 16), (0, (), 8), (1, (), 7), (0, (), 10)])
      (launch 2 2 fun x => -x)).map (fun s => s.thread 0) = some (.run .exit) := by decide
  obtain ⟨s, reached, exits⟩ := Option.map_eq_some_iff.mp computed
  have fits : Fits 2 2 := ⟨by decide, by decide⟩
  exact ⟨s, exits, sorted_at_exit fits (fun x => -x) (.of_run (.start rfl) reached) exits⟩

end

end DeviceProgramming.ParallelSort
