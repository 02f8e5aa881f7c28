import DeviceProgramming.ParallelSort.Measure
import DeviceProgramming.Machine.Count

namespace DeviceProgramming.ParallelSort

variable {n nthreads : ℕ}

/-- A bound on the steps that a thread has still to take in its round, whose
region ends at `right`; its exchanges are not counted. -/
def Pc.left (n nthreads : ℕ) (right : ℤ) : Pc → ℕ
  | outer cur => 4 * nthreads + n + 11 + 3 * (right + 1 - cur).toNat
  | inner cur _ => 4 * nthreads + n + 10 + 3 * (right + 1 - cur).toNat
  | swap cur _ => 4 * nthreads + n + 9 + 3 * (right + 1 - cur).toNat
  | lock => 4 * nthreads + n + 10
  | decrement => 4 * nthreads + n + 9
  | border i _ => 2 * nthreads + n + 8 + 2 * (nthreads - i)
  | borderSwap i => 2 * nthreads + n + 7 + 2 * (nthreads - i)
  | post i => nthreads + 7 + (nthreads - i)
  | print cur => (n - cur).toNat + 1
  | exit => 0
  | unlock => nthreads + 6
  | wait => nthreads + 5
  | lock2 => nthreads + 4
  | increment => nthreads + 3
  | post2 i => 2 + (nthreads - i)
  | unlock2 => 1
  | wait2 => 0

/-- More than a thread can need for a round. -/
def roundBound (n nthreads : ℕ) : ℕ := 4 * nthreads + 4 * n + 12

/-- A bound on the steps of a run on an array with `start` inversions. -/
def runBound (n nthreads start : ℕ) : ℕ := nthreads * ((start + 2) * roundBound n nthreads) + (2 * start + 1)

/-- What a thread in a round and at a statement may still need. -/
def weight (n start : ℕ) {nthreads : ℕ} (t : Fin nthreads) : ℕ × Pc → ℕ
  | (round, pc) => (start + 1 - round) * roundBound n nthreads + pc.left n nthreads (region n nthreads t).right

/-- The measure that every step lowers. -/
noncomputable def remaining (n start : ℕ) {nthreads : ℕ} (s : State nthreads) : ℕ :=
  total (weight n start) (fun t => (s.mem.round t, s.pc t)) + 2 * inversions n s.mem.vec + (!s.mem.exited).toNat

theorem left_outer_lt (fits : Fits n nthreads) (t : Fin nthreads) :
    (Pc.outer (region n nthreads t).left).left n nthreads (region n nthreads t).right < roundBound n nthreads := by
  have bounds := region_bounds fits t
  simp only [Pc.left, roundBound]
  omega

theorem Move.round_cases {t : Fin nthreads} {m m' : Memory nthreads} {pc next : Pc} (move : Move n t m pc m' next) :
    (m'.round = m.round ∧ pc ≠ .wait2) ∨ pc = .wait2 ∧ next = .outer (region n nthreads t).left ∧
      m'.round = Function.update m.round t (m.round t + 1) ∧ m'.exited = m.exited := by
  cases move with
  | wait2 => exact Or.inr ⟨rfl, rfl, rfl, rfl⟩
  | _ => exact Or.inl ⟨rfl, by simp⟩

/-- Within a round a thread comes nearer to its end, but for its exchanges. -/
theorem Move.left_le {t : Fin nthreads} {m m' : Memory nthreads} {pc next : Pc} (move : Move n t m pc m' next)
    (sorts : pc.Sorts n m.vec t) (live : m.exited = false) (within : pc ≠ .wait2) :
    next.left n nthreads (region n nthreads t).right + (!m'.exited).toNat ≤
      pc.left n nthreads (region n nthreads t).right + 2 * pc.swaps.toNat := by
  cases move with
  | innerOut =>
    have inside := sorts.2.2.1
    simp only [Pc.left, Pc.swaps, live, Bool.not_false, Bool.toNat_true, Bool.toNat_false]
    omega
  | wait2 => exact absurd rfl within
  | _ =>
    simp only [Pc.left, Pc.swaps, live, Bool.not_false, Bool.not_true, Bool.toNat_true, Bool.toNat_false]
    omega

section
variable {vec : ℤ → ℤ} {s s' : State nthreads} {t : Fin nthreads} {next : Pc}

theorem weight_step (fits : Fits n nthreads) (reach : (sorting n nthreads vec).Reach s)
    (move : Move n t s.mem (s.pc t) s'.mem next) (live : s.mem.exited = false) :
    weight n (inversions n vec) t (s'.mem.round t, next) + (!s'.mem.exited).toNat ≤
      weight n (inversions n vec) t (s.mem.round t, s.pc t) + 2 * (s.pc t).swaps.toNat := by
  have sorts := (sound_of_reach fits reach).sorts t
  rcases move.round_cases with ⟨same, within⟩ | ⟨here, there, round, still⟩
  · have less := move.left_le sorts live within
    rw [weight, weight, same]
    omega
  · have le := (spent_of_reach fits reach).round_le t
    have first := left_outer_lt fits t
    have rounds : inversions n vec + 1 - s.mem.round t = inversions n vec - s.mem.round t + 1 := by omega
    have fewer : inversions n vec + 1 - (s.mem.round t + 1) = inversions n vec - s.mem.round t := by omega
    rw [weight, weight, here, there, round, still, live, Function.update_self, rounds, fewer, Nat.succ_mul]
    simp only [Bool.not_false, Bool.toNat_true]
    omega

theorem remaining_step (fits : Fits n nthreads) (reach : (sorting n nthreads vec).Reach s)
    (move : Move n t s.mem (s.pc t) s'.mem next) (moved : s'.pc = Function.update s.pc t next)
    (live : s.mem.exited = false) : remaining n (inversions n vec) s' < remaining n (inversions n vec) s := by
  have changed := inversions_step fits reach move
  have less := weight_step fits reach move live
  have pairs : (fun u => (s'.mem.round u, s'.pc u)) =
      Function.update (fun u => (s.mem.round u, s.pc u)) t (s'.mem.round t, next) := by
    funext u
    by_cases own : u = t
    · subst own
      rw [Function.update_self, moved, Function.update_self]
    · have round : s'.mem.round u = s.mem.round u := by
        rcases move.round_cases with ⟨same, _⟩ | ⟨_, _, round, _⟩
        · rw [same]
        · rw [round, Function.update_of_ne own]
      rw [Function.update_of_ne own, moved, Function.update_of_ne own, round]
  have sum := total_update (weight n (inversions n vec)) (fun u => (s.mem.round u, s.pc u)) t (s'.mem.round t, next)
  rw [remaining, remaining, pairs, live]
  simp only [Bool.not_false, Bool.toNat_true]
  omega

theorem remaining_launch (fits : Fits n nthreads) (vec : ℤ → ℤ) :
    remaining n (inversions n vec) (launch n nthreads vec) ≤ runBound n nthreads (inversions n vec) := by
  have each (t : Fin nthreads) : weight n (inversions n vec) t (0, .outer (region n nthreads t).left) ≤
      (inversions n vec + 2) * roundBound n nthreads := by
    have first := left_outer_lt fits t
    have next : (inversions n vec + 2) * roundBound n nthreads =
        (inversions n vec + 1) * roundBound n nthreads + roundBound n nthreads := Nat.succ_mul ..
    rw [weight, next, Nat.sub_zero]
    omega
  let start (t : Fin nthreads) : ℕ × Pc := (0, .outer (region n nthreads t).left)
  have sum : total (weight n (inversions n vec)) start ≤
      total (fun _ _ => (inversions n vec + 2) * roundBound n nthreads) start := total_mono each
  rw [total_const, Fintype.card_fin] at sum
  have state : remaining n (inversions n vec) (launch n nthreads vec) =
      total (weight n (inversions n vec)) start + 2 * inversions n vec + 1 := rfl
  rw [state, runBound]
  omega

theorem length_le_of_run (fits : Fits n nthreads) {path : List (State nthreads × (Fin nthreads × Unit))}
    (run : (sorting n nthreads vec).Run path s) :
    path.length + remaining n (inversions n vec) s ≤ runBound n nthreads (inversions n vec) := by
  induction run with
  | start begun =>
    subst begun
    rw [List.length_nil, Nat.zero_add]
    exact remaining_launch fits vec
  | @next path s s' label earlier stepped ih =>
    have reach : (sorting n nthreads vec).Reach s := earlier.reachUnder fun _ _ => trivial
    obtain ⟨live, step⟩ := Program.step_of_next stepped
    obtain ⟨next, move, moved⟩ := move_of_step reach step
    have less := remaining_step fits reach move moved live
    rw [List.length_cons]
    omega

/-- What has happened since thread `t` began a pass over the borders in `s`. -/
structure SincePass (n : ℕ) (t : Fin nthreads) (s s' : State nthreads) : Prop where
  le : inversions n s'.mem.vec ≤ inversions n s.mem.vec
  round_le : s.mem.round t ≤ s'.mem.round t
  stage : s'.mem.round t = s.mem.round t →
    (s'.pc t).unswapped = true ∨ inversions n s'.mem.vec < inversions n s.mem.vec

theorem SincePass.step {s0 : State nthreads} {u : Fin nthreads} (fits : Fits n nthreads)
    (reach : (sorting n nthreads vec).Reach s) (since : SincePass n u s0 s)
    (move : Move n t s.mem (s.pc t) s'.mem next) (moved : s'.pc = Function.update s.pc t next) :
    SincePass n u s0 s' := by
  have changed := inversions_step fits reach move
  have le := since.le
  have rounds := since.round_le
  by_cases own : u = t
  · subst own
    rcases move.round_cases with ⟨kept, _⟩ | ⟨_, _, round, _⟩
    · refine ⟨by omega, by rwa [kept], fun now => ?_⟩
      rw [kept] at now
      rcases since.stage now with unswapped | less
      · rcases move.unswapped unswapped with stays | swaps
        · exact Or.inl (by rw [moved, Function.update_self, stays])
        · rw [swaps, Bool.toNat_true] at changed
          exact Or.inr (by omega)
      · exact Or.inr (by omega)
    · have later : s'.mem.round u = s.mem.round u + 1 := by rw [round, Function.update_self]
      exact ⟨by omega, by omega, fun now => by omega⟩
  · have kept : s'.mem.round u = s.mem.round u := by
      rcases move.round_cases with ⟨kept, _⟩ | ⟨_, _, round, _⟩
      · rw [kept]
      · rw [round, Function.update_of_ne own]
    refine ⟨by omega, by rwa [kept], fun now => ?_⟩
    rw [kept] at now
    rw [moved, Function.update_of_ne own]
    exact (since.stage now).imp_right fun less => by omega

/-- A pass over the borders that swaps one has taken an inversion away when the
threads are released. -/
theorem pass_decreases (fits : Fits n nthreads) (reach : (sorting n nthreads vec).Reach s)
    (begins : s.pc t = .border 1 false) (later : ((program n nthreads).system (· = s)).Reach s')
    (same : s'.mem.round t = s.mem.round t) (ends : s'.pc t = .post 0) :
    inversions n s'.mem.vec < inversions n s.mem.vec := by
  have pass : (sorting n nthreads vec).Reach s' ∧ SincePass n t s s' := by
    refine later.invariant (motive := fun s' => (sorting n nthreads vec).Reach s' ∧ SincePass n t s s') ?_ ?_
    · rintro s' rfl
      exact ⟨reach, le_rfl, le_rfl, fun _ => Or.inl (by rw [begins]; rfl)⟩
    · rintro s1 s2 ⟨u, _⟩ _ ⟨reached, since⟩ _ stepped
      obtain ⟨next, move, moved⟩ := move_of_step reached (Program.step_of_next stepped).2
      exact ⟨reached.next trivial stepped, since.step fits reached move moved⟩
  rcases pass.2.stage same with unswapped | less
  · rw [ends] at unswapped
    cases unswapped
  · exact less

/-- The threads have found the file sorted. -/
def Pc.ending : Pc → Bool
  | print _ | exit => true
  | _ => false

/-- A thread prints only after a pass with `swapped == 0`. -/
theorem Move.ending {m m' : Memory nthreads} {pc : Pc} (move : Move n t m pc m' next) :
    (next.ending = true ∨ m'.exited = true) →
      pc.ending = true ∨ m.exited = true ∨ ∃ i, nthreads ≤ i ∧ pc = .border i false := by
  cases move with
  | @borderSorted i outside => exact fun _ => Or.inr (Or.inr ⟨i, outside, rfl⟩)
  | printNext | printLast | exit => exact fun _ => Or.inl rfl
  | _ =>
    rintro (ending | exited)
    · cases ending
    · exact Or.inr (Or.inl exited)

/-- The program exits only after a pass with `swapped == 0`. -/
theorem sorted_pass_of_exited {path : List (State nthreads × (Fin nthreads × Unit))}
    (run : (sorting n nthreads vec).Run path s) :
    (s.mem.exited = true ∨ ∃ t, (s.pc t).ending = true) →
      ∃ step ∈ path, ∃ i, nthreads ≤ i ∧ step.1.pc step.2.1 = .border i false := by
  induction run with
  | start begun =>
    subst begun
    rintro (exited | ⟨t, ending⟩)
    · cases exited
    · cases ending
  | @next path s s' label earlier stepped ih =>
    have reach : (sorting n nthreads vec).Reach s := earlier.reachUnder fun _ _ => trivial
    obtain ⟨next, move, moved⟩ := move_of_step reach (Program.step_of_next stepped).2
    have before (ended : s.mem.exited = true ∨ ∃ t, (s.pc t).ending = true) :
        ∃ step ∈ (s, label) :: path, ∃ i, nthreads ≤ i ∧ step.1.pc step.2.1 = .border i false := by
      obtain ⟨step, member, found⟩ := ih ended
      exact ⟨step, List.mem_cons_of_mem _ member, found⟩
    have own (ended : next.ending = true ∨ s'.mem.exited = true) :
        ∃ step ∈ (s, label) :: path, ∃ i, nthreads ≤ i ∧ step.1.pc step.2.1 = .border i false := by
      rcases move.ending ended with ending | exited | found
      · exact before (Or.inr ⟨_, ending⟩)
      · exact before (Or.inl exited)
      · exact ⟨_, List.mem_cons_self .., found⟩
    rintro (exited | ⟨t, ending⟩)
    · exact own (Or.inr exited)
    · rcases update_cases moved t with ⟨_, now⟩ | ⟨_, now⟩
      · exact own (Or.inl (now ▸ ending))
      · exact before (Or.inr ⟨t, now ▸ ending⟩)

/-- The rounds come to an end. No step adds an inversion, a pass that swaps a
border takes one away, so no thread passes the barrier more often than the array
had inversions; a run has a bounded number of steps and can go on until `exit`,
which comes after a pass with `swapped == 0`. -/
theorem rounds_terminate (fits : Fits n nthreads) (vec : ℤ → ℤ)
    {path : List (State nthreads × (Fin nthreads × Unit))} {s : State nthreads}
    (run : (sorting n nthreads vec).Run path s) :
    (∀ t s', (sorting n nthreads vec).next s (t, ()) = some s' →
      inversions n s'.mem.vec ≤ inversions n s.mem.vec) ∧
    (∀ t s', s.pc t = .border 1 false → ((program n nthreads).system (· = s)).Reach s' →
      s'.mem.round t = s.mem.round t → s'.pc t = .post 0 →
        inversions n s'.mem.vec < inversions n s.mem.vec) ∧
    (∀ t, s.mem.round t ≤ inversions n vec) ∧
    path.length ≤ runBound n nthreads (inversions n vec) ∧
    (s.mem.exited = false → ∃ t s', (sorting n nthreads vec).next s (t, ()) = some s') ∧
    (s.mem.exited = true → ∃ step ∈ path, ∃ i, nthreads ≤ i ∧ step.1.pc step.2.1 = .border i false ∧
      step.1.mem.round step.2.1 ≤ inversions n vec) := by
  have reach : (sorting n nthreads vec).Reach s := run.reachUnder fun _ _ => trivial
  have rounds {u : State nthreads} (reached : (sorting n nthreads vec).Reach u) (t : Fin nthreads) :
      u.mem.round t ≤ inversions n vec := by
    have le := (spent_of_reach fits reached).round_le t
    omega
  have length := length_le_of_run fits run
  refine ⟨fun t s' stepped => ?_, fun t s' begins later same ends => pass_decreases fits reach begins later same ends,
    rounds reach, by omega, exists_enabled fits.positive reach, fun exited => ?_⟩
  · obtain ⟨next, move, moved⟩ := move_of_step reach (Program.step_of_next stepped).2
    have changed := inversions_step fits reach move
    omega
  · obtain ⟨step, member, i, outside, here⟩ := sorted_pass_of_exited run (Or.inl exited)
    exact ⟨step, member, i, outside, here, rounds (run.reachUnder_of_mem (fun _ _ => trivial) member) _⟩

set_option maxRecDepth 10000 in
/-- Two threads sort two numbers up to the end of the program. -/
theorem rounds_terminate_two : ∃ path, ∃ s : State 2, (sorting 2 2 fun x => -x).Run path s ∧
    ∃ step ∈ path, ∃ i, 2 ≤ i ∧ step.1.pc step.2.1 = .border i false ∧
      step.1.mem.round step.2.1 ≤ inversions 2 fun x : ℤ => -x := by
  have computed : ((sorting 2 2 fun x => -x).run
      (schedule [(0, (), 6), (1, (), 16), (0, (), 8), (1, (), 7), (0, (), 11)])
      (launch 2 2 fun x => -x)).map (fun s => s.mem.exited) = some true := by decide
  obtain ⟨s, reached, exited⟩ := Option.map_eq_some_iff.mp computed
  obtain ⟨path, run, _⟩ := System.Run.of_run (.start rfl) (by simp) reached
  obtain ⟨_, _, _, _, _, found⟩ := rounds_terminate ⟨by decide, by decide⟩ (fun x => -x) run
  exact ⟨path, s, run, found exited⟩

end

end DeviceProgramming.ParallelSort
