import DeviceProgramming.ParallelSort.ThreadSort
import DeviceProgramming.Machine.Sleep

namespace DeviceProgramming.ParallelSort

variable {n nthreads : ℕ}

/-- What a statement of thread `t` does to the memory and where it leads. -/
inductive Move (n : ℕ) {nthreads : ℕ} (t : Fin nthreads) (m : Memory nthreads) :
    Pc → Memory nthreads → Pc → Prop
  | outerIn {cur} : cur ≤ (region n nthreads t).right → Move n t m (.outer cur) m (.inner cur cur)
  | outerOut {cur} : (region n nthreads t).right < cur → Move n t m (.outer cur) m .lock
  | innerSwap {cur tmp} : (region n nthreads t).left + 1 ≤ tmp → m.vec tmp < m.vec (tmp - 1) →
      Move n t m (.inner cur tmp) m (.swap cur tmp)
  | innerOut {cur tmp} : ((region n nthreads t).left + 1 ≤ tmp → m.vec (tmp - 1) ≤ m.vec tmp) →
      Move n t m (.inner cur tmp) m (.outer (cur + 1))
  | swap {cur tmp} : Move n t m (.swap cur tmp)
      { m with vec := DeviceProgramming.swap m.vec (tmp - 1) tmp } (.inner cur (tmp - 1))
  | lock : Move n t m .lock m .decrement
  | decrementLast : m.counter - 1 = 0 →
      Move n t m .decrement { m with counter := m.counter - 1 } (.border 1 false)
  | decrement : m.counter - 1 ≠ 0 → Move n t m .decrement { m with counter := m.counter - 1 } .unlock
  | borderSwaps {i swapped} : i < nthreads →
      m.vec (i * (region n nthreads t).regionLength) < m.vec (i * (region n nthreads t).regionLength - 1) →
      Move n t m (.border i swapped) m (.borderSwap i)
  | borderNext {i swapped} : i < nthreads →
      m.vec (i * (region n nthreads t).regionLength - 1) ≤ m.vec (i * (region n nthreads t).regionLength) →
      Move n t m (.border i swapped) m (.border (i + 1) swapped)
  | borderSwapped {i} : nthreads ≤ i → Move n t m (.border i true) m (.post 0)
  | borderSorted {i} : nthreads ≤ i → Move n t m (.border i false) m (.print 0)
  | borderSwap {i} : Move n t m (.borderSwap i)
      { m with vec := DeviceProgramming.swap m.vec (i * (region n nthreads t).regionLength - 1)
                (i * (region n nthreads t).regionLength) } (.border (i + 1) true)
  | postNext {i} : i < nthreads → Move n t m (.post i) { m with sem := m.sem + 1 } (.post (i + 1))
  | postLast {i} : nthreads ≤ i → Move n t m (.post i) m .unlock
  | printNext {cur : ℤ} : cur < n →
      Move n t m (.print cur) { m with printed := m.printed ++ [(cur, m.vec cur)] } (.print (cur + 1))
  | printLast {cur : ℤ} : n ≤ cur → Move n t m (.print cur) m .exit
  | exit : Move n t m .exit { m with exited := true } .exit
  | unlock : Move n t m .unlock m .wait
  | wait : 0 < m.sem → Move n t m .wait { m with sem := m.sem - 1 } .lock2
  | lock2 : Move n t m .lock2 m .increment
  | incrementLast : m.counter + 1 = nthreads →
      Move n t m .increment { m with counter := m.counter + 1 } (.post2 0)
  | increment : m.counter + 1 ≠ nthreads →
      Move n t m .increment { m with counter := m.counter + 1 } .unlock2
  | post2Next {i} : i < nthreads → Move n t m (.post2 i) { m with sem2 := m.sem2 + 1 } (.post2 (i + 1))
  | post2Last {i} : nthreads ≤ i → Move n t m (.post2 i) m .unlock2
  | unlock2 : Move n t m .unlock2 m .wait2
  | wait2 : 0 < m.sem2 →
      Move n t m .wait2
        { m with sem2 := m.sem2 - 1, round := Function.update m.round t (m.round t + 1) }
        (.outer (region n nthreads t).left)

theorem move_border (t : Fin nthreads) (m : Memory nthreads) (i : ℕ) (swapped : Bool) :
    Move n t m (.border i swapped) m (borderLoop nthreads (region n nthreads t).regionLength i swapped m) := by
  unfold borderLoop
  split
  · rename_i within
    split
    · rename_i greater
      exact .borderSwaps within greater
    · rename_i ordered
      exact .borderNext within (not_lt.mp ordered)
  · rename_i outside
    cases swapped with
    | true => exact .borderSwapped (not_lt.mp outside)
    | false => exact .borderSorted (not_lt.mp outside)

theorem move_of_exec {t : Fin nthreads} {pc next : Pc} {m m' : Memory nthreads}
    {effect : Unit → Memory nthreads → Option (Memory nthreads × Pc)}
    (here : instr n nthreads t pc = .exec effect) (run : effect () m = some (m', next)) :
    Move n t m pc m' next := by
  cases pc <;> cases here
  case border i swapped => cases run; exact move_border t m i swapped
  case outer cur =>
    cases run
    split
    · rename_i inside
      exact .outerIn inside
    · rename_i outside
      exact .outerOut (not_le.mp outside)
  case inner cur tmp =>
    cases run
    split
    · rename_i greater
      exact .innerSwap greater.1 greater.2
    · rename_i settled
      exact .innerOut fun above => not_lt.mp fun greater => settled ⟨above, greater⟩
  case decrement =>
    cases run
    split
    · rename_i last
      exact .decrementLast last
    · rename_i more
      exact .decrement more
  case increment =>
    cases run
    split
    · rename_i last
      exact .incrementLast last
    · rename_i more
      exact .increment more
  case post i =>
    by_cases within : i < nthreads
    · simp only [within, if_true] at run
      cases run
      exact .postNext within
    · simp only [within, if_false] at run
      cases run
      exact .postLast (not_lt.mp within)
  case post2 i =>
    by_cases within : i < nthreads
    · simp only [within, if_true] at run
      cases run
      exact .post2Next within
    · simp only [within, if_false] at run
      cases run
      exact .post2Last (not_lt.mp within)
  case print cur =>
    by_cases within : cur < n
    · simp only [within, if_true] at run
      cases run
      exact .printNext within
    · simp only [within, if_false] at run
      cases run
      exact .printLast (not_lt.mp within)
  case wait =>
    by_cases empty : m.sem = 0
    · simp [empty] at run
    · simp only [empty, if_false] at run
      cases run
      exact .wait (Nat.pos_of_ne_zero empty)
  case wait2 =>
    by_cases empty : m.sem2 = 0
    · simp [empty] at run
    · simp only [empty, if_false] at run
      cases run
      exact .wait2 (Nat.pos_of_ne_zero empty)
  all_goals
    cases run
    constructor

section
variable {vec : ℤ → ℤ} {s s' : State nthreads} {t : Fin nthreads}

/-- No thread ever sleeps on a channel. -/
theorem running_of_reach (reach : (sorting n nthreads vec).Reach s) (t : Fin nthreads) :
    s.thread t = .run (s.pc t) := by
  have slept : (program n nthreads).SleptAt s := by
    refine Program.sleptAt_of_reach (fun s begun => Program.sleptAt_start fun t => ?_) reach
    subst begun
    exact ⟨_, rfl⟩
  cases now : s.thread t with
  | run pc => rw [Threads.pc_of_run now]
  | asleep chan => exact chan.elim
  | relock =>
    obtain ⟨_, chan, _⟩ := slept.relock now
    exact chan.elim

/-- Each step is a move of one thread. -/
theorem move_of_step (reach : (sorting n nthreads vec).Reach s)
    (step : (program n nthreads).Step t () s s') :
    ∃ next, Move n t s.mem (s.pc t) s'.mem next ∧ s'.pc = Function.update s.pc t next := by
  have running := running_of_reach reach t
  rcases step.view with ⟨_, _, lock, woken⟩ | ⟨same, next, target, moved⟩ |
    ⟨effect, next, _, here, run, moved⟩
  · cases running.symm.trans woken
  · refine ⟨next, ?_, moved⟩
    rw [same]
    change (instr n nthreads t (s.pc t)).target = some next at target
    revert target
    cases s.pc t <;> intro target <;> cases target <;> constructor
  · exact ⟨next, move_of_exec here run, moved⟩

end

end DeviceProgramming.ParallelSort
