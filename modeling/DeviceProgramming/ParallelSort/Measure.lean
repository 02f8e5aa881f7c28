import DeviceProgramming.ParallelSort.Sorted
import DeviceProgramming.Machine.Inversions

namespace DeviceProgramming.ParallelSort

variable {n nthreads : ℕ}

/-- The statement exchanges two neighbours. -/
def Pc.swaps : Pc → Bool
  | swap _ _ | borderSwap _ => true
  | _ => false

/-- The last thread to arrive has not yet swapped a border of this pass. -/
def Pc.unswapped : Pc → Bool
  | border _ false | borderSwap _ | print _ | exit => true
  | _ => false

theorem Pc.place_of_unswapped {pc : Pc} (unswapped : pc.unswapped = true) :
    pc.place nthreads = .opening nthreads := by
  cases pc with
  | border | borderSwap | print | exit => rfl
  | outer | inner | swap | lock | decrement | post | unlock | wait | lock2 | increment | post2 | unlock2 | wait2 =>
    cases unswapped

/-- The unswapped thread goes on with its pass, or swaps. -/
theorem Move.unswapped {t : Fin nthreads} {m m' : Memory nthreads} {pc next : Pc} (move : Move n t m pc m' next)
    (unswapped : pc.unswapped = true) : next.unswapped = true ∨ pc.swaps = true := by
  cases move with
  | borderSwaps | printNext | printLast | exit => exact Or.inl rfl
  | borderSwap => exact Or.inr rfl
  | @borderNext i swapped =>
    cases swapped with
    | false => exact Or.inl rfl
    | true => cases unswapped
  | borderSorted => exact Or.inl rfl
  | outerIn | outerOut | innerSwap | innerOut | swap | lock | decrementLast | decrement | borderSwapped | postNext
  | postLast | unlock | wait | lock2 | incrementLast | increment | post2Next | post2Last | unlock2 | wait2 =>
    cases unswapped

theorem Move.vec_eq {t : Fin nthreads} {m m' : Memory nthreads} {pc next : Pc} (move : Move n t m pc m' next)
    (reads : pc.swaps = false) : m'.vec = m.vec := by
  rcases move.vec_cases with same | ⟨cur, tmp, here, _⟩ | ⟨i, here, _⟩
  · exact same
  · rw [here] at reads
    cases reads
  · rw [here] at reads
    cases reads

theorem Move.swap_cases {t : Fin nthreads} {m m' : Memory nthreads} {pc next : Pc} (move : Move n t m pc m' next)
    (exchanges : pc.swaps = true) :
    (∃ cur tmp, pc = .swap cur tmp ∧ m'.vec = DeviceProgramming.swap m.vec (tmp - 1) tmp) ∨
    ∃ i, pc = .borderSwap i ∧ m'.vec = DeviceProgramming.swap m.vec
      (i * regionLength n nthreads - 1) (i * regionLength n nthreads) := by
  cases move with
  | swap => exact Or.inl ⟨_, _, rfl, rfl⟩
  | borderSwap => exact Or.inr ⟨_, rfl, rfl⟩
  | _ => cases exchanges

section
variable {vec : ℤ → ℤ} {s s' : State nthreads} {t : Fin nthreads} {next : Pc}

/-- Until a border is swapped its two elements stay in the wrong order. -/
theorem greater_of_reach (fits : Fits n nthreads) (reach : (sorting n nthreads vec).Reach s) {i : ℕ}
    (at' : s.pc t = .borderSwap i) :
    s.mem.vec (i * regionLength n nthreads) < s.mem.vec (i * regionLength n nthreads - 1) := by
  refine reach.invariant (motive := fun s => ∀ t i, s.pc t = .borderSwap i →
    s.mem.vec (i * regionLength n nthreads) < s.mem.vec (i * regionLength n nthreads - 1)) ?_ ?_ t i at'
  · rintro s rfl t i at'
    cases at'
  · rintro s s' ⟨t, _⟩ earlier greater _ stepped u i at'
    obtain ⟨next, move, moved⟩ := move_of_step earlier (Program.step_of_next stepped).2
    dsimp only at move moved
    by_cases own : u = t
    · subst own
      rw [moved, Function.update_self] at at'
      subst at'
      generalize s.pc u = here at move
      generalize s'.mem = mem at move ⊢
      cases move with
      | borderSwaps _ larger => exact larger
    · rw [moved, Function.update_of_ne own] at at'
      have kept : s'.mem.vec = s.mem.vec := by
        refine move.vec_eq (Bool.eq_false_iff.mpr fun exchanges => ?_)
        cases here : s.pc t with
        | swap =>
          have opening : (barrier s).place u = .opening nthreads := by
            change (s.pc u).place nthreads = _
            rw [at']
            rfl
          refine (barrier_inv fits.positive earlier).not_arriving_of_opening opening t ?_
          change (s.pc t).place nthreads = _
          rw [here]
          rfl
        | borderSwap =>
          have running := running_of_reach earlier
          exact own ((owned_of_reach earlier).unique_run ((running u).trans (by rw [at']))
            ((running t).trans (by rw [here])) (List.mem_singleton.mpr rfl) (List.mem_singleton.mpr rfl))
        | outer | inner | lock | decrement | border | post | print | exit | unlock | wait | lock2 | increment | post2
        | unlock2 | wait2 =>
          rw [here] at exchanges
          cases exchanges
      rw [kept]
      exact greater u i at'

/-- A step takes away an inversion when it exchanges two elements, in a region
or at a border, and otherwise leaves them all. -/
theorem inversions_step (fits : Fits n nthreads) (reach : (sorting n nthreads vec).Reach s)
    (move : Move n t s.mem (s.pc t) s'.mem next) :
    inversions n s'.mem.vec + (s.pc t).swaps.toNat = inversions n s.mem.vec := by
  have sorts := (sound_of_reach fits reach).sorts t
  cases exchanges : (s.pc t).swaps with
  | false => rw [move.vec_eq exchanges, Bool.toNat_false, Nat.add_zero]
  | true =>
    rcases move.swap_cases exchanges with ⟨cur, tmp, here, swapped⟩ | ⟨i, here, swapped⟩
    · rw [here] at sorts
      obtain ⟨above, le, inside, _, greater⟩ := sorts
      have bounds := region_bounds fits t
      have next : tmp = tmp - 1 + 1 := by omega
      rw [next] at greater
      have less := inversions_swap (n := n) (a := s.mem.vec) (x := tmp - 1) (by omega) (by omega) (by simpa using greater)
      rw [← next] at less
      rw [swapped]
      exact less
    · have greater := greater_of_reach fits reach here
      rw [here] at sorts
      obtain ⟨one, within⟩ := sorts
      obtain ⟨first, last⟩ := border_inside fits one within
      have less := inversions_swap (n := n) (a := s.mem.vec) (x := i * regionLength n nthreads - 1) (by omega) (by omega)
        (by rw [sub_add_cancel]; exact greater)
      rw [sub_add_cancel] at less
      rw [swapped]
      exact less

/-- Every round so far has taken an inversion away; the present one has too
once the last thread to arrive has swapped a border. -/
def Spent (n start : ℕ) {nthreads : ℕ} (s : State nthreads) : Prop :=
  (∃ r, Barrier.Gathering r (barrier s) ∧ r + inversions n s.mem.vec ≤ start) ∨
  ∃ r, Barrier.Releasing r (barrier s) ∧ r + inversions n s.mem.vec ≤ start ∧
    ((∃ t, (s.pc t).unswapped = true) ∨ r + 1 + inversions n s.mem.vec ≤ start)

theorem Spent.round_le {start : ℕ} (spent : Spent n start s) (t : Fin nthreads) :
    s.mem.round t + inversions n s.mem.vec ≤ start := by
  have here : (barrier s).round t = s.mem.round t := rfl
  rcases spent with ⟨r, gathering, le⟩ | ⟨r, releasing, le, _⟩
  · have round := (gathering.place t).round
    omega
  · have round := (releasing.place t).round
    omega

theorem spent_step (fits : Fits n nthreads) {start : ℕ} (reach : (sorting n nthreads vec).Reach s)
    (spent : Spent n start s) (move : Move n t s.mem (s.pc t) s'.mem next)
    (moved : s'.pc = Function.update s.pc t next) : Spent n start s' := by
  have changed := inversions_step fits reach move
  rcases spent with ⟨r, gathering, le⟩ | ⟨r, releasing, le, swapping⟩
  · rcases move.barrier_step moved with same | step
    · exact Or.inl ⟨r, same ▸ gathering, by omega⟩
    · rcases gathering.step step with gathers | ⟨releases, arriving, last⟩
      · exact Or.inl ⟨r, gathers, by omega⟩
      · have arrived : next.place nthreads ≠ .arriving := by
          rw [← (barrier_place moved).1]
          intro stays
          have place := releases.place t
          rw [stays] at place
          exact place
        obtain ⟨_, _, rfl⟩ := move.arrives arriving arrived last
        exact Or.inr ⟨r, releases, by omega, Or.inl ⟨t, by rw [moved, Function.update_self]; rfl⟩⟩
  · -- a thread that has not swapped stays in its pass, or swaps and takes an inversion away
    have swapping' : (∃ u, (s'.pc u).unswapped = true) ∨ r + 1 + inversions n s'.mem.vec ≤ start := by
      rcases swapping with ⟨u, unswapped⟩ | less
      · by_cases own : u = t
        · subst own
          rcases move.unswapped unswapped with stays | swaps
          · exact Or.inl ⟨u, by rw [moved, Function.update_self, stays]⟩
          · rw [swaps, Bool.toNat_true] at changed
            exact Or.inr (by omega)
        · exact Or.inl ⟨u, by rw [moved, Function.update_of_ne own, unswapped]⟩
      · exact Or.inr (by omega)
    rcases move.barrier_step moved with same | step
    · exact Or.inr ⟨r, same ▸ releasing, by omega, swapping'⟩
    · rcases releasing.step step with releases | ⟨gathers, counted⟩
      · exact Or.inr ⟨r, releases, by omega, swapping'⟩
      · refine Or.inl ⟨r + 1, gathers, ?_⟩
        rcases swapping' with ⟨u, unswapped⟩ | less
        · have opening : (barrier s').place u = .opening nthreads := Pc.place_of_unswapped unswapped
          rcases counted u with at' | ⟨left, at'⟩
          · cases opening.symm.trans at'
          · cases opening.symm.trans at'
        · exact less

theorem spent_of_reach (fits : Fits n nthreads) (reach : (sorting n nthreads vec).Reach s) :
    Spent n (inversions n vec) s := by
  refine reach.invariant (motive := Spent n (inversions n vec)) ?_ ?_
  · rintro s rfl
    have some : Nonempty (Fin nthreads) := ⟨⟨0, fits.positive⟩⟩
    refine Or.inl ⟨0, ?_, ?_⟩
    · rw [barrier_launch]
      exact Barrier.gathering_start
    · rw [Nat.zero_add]
      exact le_rfl
  · rintro s s' ⟨t, _⟩ earlier spent _ stepped
    obtain ⟨next, move, moved⟩ := move_of_step earlier (Program.step_of_next stepped).2
    exact spent_step fits earlier spent move moved

end

end DeviceProgramming.ParallelSort
