import DeviceProgramming.Offices.Delivery
import DeviceProgramming.Machine.Count

namespace DeviceProgramming.Offices

variable {k : ℕ} {s s' : State k} {t : Tid k} {rand : ℕ} {next : Pc k}

/-- The statements of a student that has decremented `num_students.num`. -/
def Pc.decremented : Pc k → Bool
  | finish _ .unlockLast | finish _ .kill | finish _ .unlock | finish _ .done => true
  | _ => false

/-- The statements of the student that ends the process. -/
def Pc.Closing : Pc k → Prop
  | finish _ .unlockLast | finish _ .kill => True
  | _ => False

def Pc.Done : Pc k → Prop
  | finish _ .done => True
  | _ => False

/-- 1 for a student that has not decremented `num_students.num`. -/
def Pc.counts (pc : Pc k) : ℕ := if pc.decremented then 0 else 1

/-- The number of students that have not yet decremented `num_students.num`. -/
def undecided (s : State k) : ℕ := total (fun _ => Pc.counts) fun i : Fin k => s.pc (.student i)

theorem undecided_eq_card (s : State k) :
    undecided s = (Finset.univ.filter fun i => (s.pc (.student i)).decremented = false).card := by
  unfold undecided total
  rw [Finset.card_filter]
  refine Finset.sum_congr rfl fun i _ => ?_
  change (s.pc (.student i)).counts = _
  unfold Pc.counts
  cases (s.pc (.student i)).decremented <;> rfl

theorem undecided_student {i : Fin k} (moved : s'.pc = Function.update s.pc (.student i) next) :
    undecided s' + (s.pc (.student i)).counts = undecided s + next.counts := by
  have pcs : (fun j => s'.pc (.student j)) = Function.update (fun j => s.pc (.student j)) i next := by
    funext j
    rw [moved]
    by_cases own : j = i
    · subst own
      rw [Function.update_self, Function.update_self]
    · rw [Function.update_of_ne own, Function.update_of_ne (by simpa using own)]
  unfold undecided
  rw [pcs]
  exact total_update (fun _ => Pc.counts) _ i next

theorem undecided_other (other : ∀ i, t ≠ .student i) (moved : s'.pc = Function.update s.pc t next) :
    undecided s' = undecided s := by
  refine total_congr fun i => ?_
  rw [moved, Function.update_of_ne (other i).symm]

/-- A statement that does not decrement leaves the number as it is. -/
theorem undecided_kept (moved : s'.pc = Function.update s.pc t next)
    (same : next.counts = (s.pc t).counts) : undecided s' = undecided s := by
  cases t with
  | student i =>
    have whole := undecided_student moved
    omega
  | office o => exact undecided_other (fun _ => by simp) moved
  | specialOffice => exact undecided_other (fun _ => by simp) moved

theorem decremented_of_undecided (none : undecided s = 0) (i : Fin k) :
    (s.pc (.student i)).decremented = true := by
  have own : (s.pc (.student i)).counts = 0 := total_eq_zero.mp none i
  unfold Pc.counts at own
  cases decremented : (s.pc (.student i)).decremented with
  | true => rfl
  | false => simp [decremented] at own

/-- `num_students.num` counts, and the student that brings it to zero is the
last one. -/
structure Counted (s : State k) : Prop where
  num : s.mem.num = undecided s
  closing : ∀ t, (s.pc t).Closing → s.mem.num = 0 ∧ ∀ i, t ≠ .student i → (s.pc (.student i)).Done
  killed : s.mem.killed = true → s.mem.num = 0 ∧ ∀ i, (s.pc (.student i)).Done

theorem counts_of_target {pc : Pc k} (target : (instr t pc).target = some next) :
    next.counts = pc.counts ∧ (next.Closing → pc.Closing) ∧ ¬ pc.Done := by
  cases control_of_target target
  case finishUnlockLast => exact ⟨rfl, fun _ => trivial, id⟩
  all_goals exact ⟨rfl, id, id⟩

/-- What a statement does to the number of students, to the last one and to
the process. -/
theorem Effect.counts_cases {m m' : Memory k} {pc : Pc k} (effect : Effect t rand m pc m' next) :
    (∃ info, pc = .finish info .decrement ∧ m'.num = m.num - 1 ∧ next.counts = 0 ∧
      (next.Closing → m'.num = 0) ∧ m'.killed = m.killed) ∨
    (∃ info, pc = .finish info .kill ∧ m'.num = m.num ∧ next = .finish info .done) ∨
    (m'.num = m.num ∧ next.counts = pc.counts ∧ ¬ next.Closing ∧ ¬ pc.Done ∧ m'.killed = m.killed) := by
  cases effect
  case decrementLast info last => exact Or.inl ⟨info, rfl, rfl, rfl, fun _ => last, rfl⟩
  case decrement info more => exact Or.inl ⟨info, rfl, rfl, rfl, nofun, rfl⟩
  case kill info => exact Or.inr (Or.inl ⟨info, rfl, rfl, rfl⟩)
  case token site info =>
    obtain ⟨_, _, _, num, killed⟩ := m.token_frame (site.queue info) info
    exact Or.inr (Or.inr ⟨num, rfl, id, id, killed⟩)
  all_goals exact Or.inr (Or.inr ⟨rfl, rfl, id, id, rfl⟩)

theorem student_of_finish {info : Info k} {at' : FinishAt} (runs : t.Runs (.finish info at')) :
    ∃ i, t = .student i := by
  cases t with
  | student i => exact ⟨i, rfl⟩
  | office | specialOffice => exact runs.elim

/-- When the number gets to zero, every other student is done: none of them
is about to end the process, and none has the lock. -/
theorem Counted.others_done (counted : Counted s) (owned : s.Owned fun _ => held)
    (slept : (program k).SleptAt s) {info : Info k} (here : s.pc t = .finish info .decrement)
    (last : s.mem.num - 1 = 0) {i : Fin k} (other : t ≠ .student i)
    (decremented : (s.pc (.student i)).decremented = true) : (s.pc (.student i)).Done := by
  have open' : ¬ (s.pc (.student i)).Closing := by
    intro closing
    have zero := (counted.closing _ closing).1
    omega
  have running := running_of_sleepsOn slept (show (s.pc t).sleepsOn = none by rw [here]; rfl)
  rw [here] at running
  cases there : s.pc (.student i) <;> rw [there] at decremented open'
  case finish info' at' =>
    cases at'
    case unlock =>
      have stopped := running_of_sleepsOn (t := .student i) slept (by rw [there]; rfl)
      rw [there] at stopped
      have same := owned.unique_run (l := .numStudents) running stopped (List.mem_singleton_self _)
        (List.mem_singleton_self _)
      exact absurd same other
    case done => trivial
    case unlockLast | kill => exact absurd trivial open'
    case lock | decrement => cases decremented
  all_goals cases decremented

/-- The student that closes sees only the moves of the offices. -/
theorem Counted.closing_other (counted : Counted s) (moved : s'.pc = Function.update s.pc t next)
    (moves : ¬ (s.pc t).Done) {u : Tid k} (differ : u ≠ t) (closing : (s'.pc u).Closing) :
    s.mem.num = 0 ∧ (∀ i, u ≠ .student i → (s'.pc (.student i)).Done) ∧ ∀ i, t ≠ .student i := by
  rw [moved, Function.update_of_ne differ] at closing
  obtain ⟨zero, done⟩ := counted.closing u closing
  have others (i : Fin k) : t ≠ .student i := by
    rintro rfl
    exact moves (done i differ)
  refine ⟨zero, fun i other => ?_, others⟩
  rw [moved, Function.update_of_ne (others i).symm]
  exact done i other

theorem Counted.decrement (counted : Counted s) (owned : s.Owned fun _ => held)
    (slept : (program k).SleptAt s) {j : Fin k} {info : Info k}
    (here : s.pc (.student j) = .finish info .decrement)
    (moved : s'.pc = Function.update s.pc (.student j) next) (num : s'.mem.num = s.mem.num - 1)
    (counts : next.counts = 0) (zero : next.Closing → s'.mem.num = 0) (live : s'.mem.killed = false) :
    Counted s' := by
  have before : (s.pc (.student j)).counts = 1 := by rw [here]; rfl
  have fewer : s'.mem.num = undecided s' := by
    have whole := undecided_student moved
    have old := counted.num
    omega
  refine ⟨fewer, fun u closing => ?_, by rw [live]; exact nofun⟩
  by_cases own : u = .student j
  · subst own
    rw [moved, Function.update_self] at closing
    have none := zero closing
    refine ⟨none, fun i other => ?_⟩
    have decremented := decremented_of_undecided (s := s') (by omega) i
    rw [moved, Function.update_of_ne other.symm] at decremented ⊢
    exact counted.others_done owned slept here (by omega) other decremented
  · have alone := (counted.closing_other moved (by rw [here]; exact id) own closing).2.2
    exact absurd rfl (alone j)

theorem Counted.kill (counted : Counted s) {j : Fin k} {info : Info k}
    (here : s.pc (.student j) = .finish info .kill)
    (moved : s'.pc = Function.update s.pc (.student j) (.finish info .done))
    (num : s'.mem.num = s.mem.num) : Counted s' := by
  obtain ⟨zero, done⟩ := counted.closing (.student j) (by rw [here]; trivial)
  refine ⟨?_, fun u closing => ?_, fun _ => ⟨by rw [num, zero], fun i => ?_⟩⟩
  · rw [num, undecided_kept moved (by rw [here]; rfl)]
    exact counted.num
  · by_cases own : u = .student j
    · subst own
      rw [moved, Function.update_self] at closing
      exact closing.elim
    · have alone := (counted.closing_other moved (by rw [here]; exact id) own closing).2.2
      exact absurd rfl (alone j)
  · rcases update_cases moved (.student i) with ⟨_, now⟩ | ⟨differ, now⟩
    · rw [now]
      trivial
    · rw [now]
      exact done i differ.symm

/-- A step that leaves the number alone. -/
theorem Counted.keep (counted : Counted s) (moved : s'.pc = Function.update s.pc t next)
    (num : s'.mem.num = s.mem.num) (counts : next.counts = (s.pc t).counts)
    (closes : next.Closing → (s.pc t).Closing) (moves : ¬ (s.pc t).Done) (live : s'.mem.killed = false) :
    Counted s' := by
  refine ⟨?_, fun u closing => ?_, by rw [live]; exact nofun⟩
  · rw [num, undecided_kept moved counts]
    exact counted.num
  · rw [num]
    by_cases own : u = t
    · subst own
      rw [moved, Function.update_self] at closing
      obtain ⟨zero, done⟩ := counted.closing u (closes closing)
      refine ⟨zero, fun i other => ?_⟩
      rw [moved, Function.update_of_ne other.symm]
      exact done i other
    · obtain ⟨zero, done, _⟩ := counted.closing_other moved moves own closing
      exact ⟨zero, done⟩

theorem Counted.step (counted : Counted s) (owned : s.Owned fun _ => held) (slept : (program k).SleptAt s)
    (runs : t.Runs (s.pc t)) (live : s.mem.killed = false) (step : (program k).Step t rand s s') :
    Counted s' := by
  rcases step_cases step with ⟨mem, stays⟩ | ⟨mem, next, target, moved⟩ | ⟨next, at', effect, moved⟩
  · refine ⟨?_, by rw [mem, stays]; exact counted.closing, by rw [mem, stays]; exact counted.killed⟩
    unfold undecided
    rw [mem, stays]
    exact counted.num
  · obtain ⟨counts, closes, moves⟩ := counts_of_target target
    exact counted.keep moved (by rw [mem]) counts closes moves (by rw [mem, live])
  · rcases effect.counts_cases with ⟨info, here, num, counts, zero, killed⟩ |
      ⟨info, here, num, rfl⟩ | ⟨num, counts, stays, moves, killed⟩
    · rw [here] at runs
      obtain ⟨j, rfl⟩ := student_of_finish runs
      exact counted.decrement owned slept here moved num counts zero (by rw [killed, live])
    · rw [here] at runs
      obtain ⟨j, rfl⟩ := student_of_finish runs
      exact counted.kill here moved num
    · exact counted.keep moved num counts (fun closing => absurd closing stays) moves (by rw [killed, live])

theorem Opening.counted (opening : Opening s) : Counted s := by
  have entry (i : Fin k) : (s.pc (.student i)).counts = 1 := by
    rw [opening.launched.pc]
    rfl
  refine ⟨?_, fun t closing => ?_, by rw [opening.killed]; exact nofun⟩
  · have all : undecided s = total (fun _ (_ : Unit) => 1) (fun _ : Fin k => ()) := total_congr entry
    rw [opening.num, all, total_const, Fintype.card_fin, Nat.mul_one]
  · rw [opening.launched.pc] at closing
    cases t <;> exact closing.elim

theorem counted_of_reach {ok : State k → Tid k × ℕ → Prop} (reach : (simulation k).ReachUnder ok s) :
    Counted s := by
  induction reach with
  | start opening => exact opening.counted
  | @next s s' label earlier allowed moved ih =>
    obtain ⟨live, step⟩ := Program.step_of_next moved
    obtain ⟨stages, delivers, _⟩ := delivers_of_reach earlier
    exact ih.step (owned_of_reach earlier) (sleptAt_of_reach earlier) (delivers.placed.runs _) live step

end DeviceProgramming.Offices
