import DeviceProgramming.Offices.Effects
import DeviceProgramming.Machine.Sleep

namespace DeviceProgramming.Offices

variable {k : ℕ}

def SendAt.held (q : Queue k) : SendAt → List (Lock k)
  | lock => []
  | test | wait | fill | notify | lockCond | unlock => [.buffer q]
  | token | broadcast | unlockCond => [.cond, .buffer q]

def ReceiveAt.held (q : Queue k) : ReceiveAt (Message k) → List (Lock k)
  | lock => []
  | test | wait | take | notify _ | unlock _ => [.buffer q]

def FinishAt.held (k : ℕ) : FinishAt → List (Lock k)
  | decrement | unlockLast | unlock => [.numStudents]
  | lock | kill | done => []

/-- The locks a thread holds at each statement. -/
def held : Pc k → List (Lock k)
  | .send site info at' => at'.held (site.queue info)
  | .receive receiver at' => at'.held receiver.queue
  | .finish _ at' => at'.held k
  | .officeTest _ | .officeWait _ | .officeClaim _ | .officeUnlock _ _
  | .specialTest | .specialWait | .specialClaim | .specialUnlock => [.cond]
  | .studentInit _ | .officeInit _ | .officeLock _ | .officeServe _ _ | .specialLock => []

@[simp] theorem held_after_send (site : Site) (info : Info k) : held (site.after info) = [] := by
  cases site <;> rfl

@[simp] theorem held_after_receive (receiver : Receiver k) (message : Message k) :
    held (receiver.after message) = [] := by
  rcases receiver with ⟨_ | _ | _, info⟩ | ⟨_ | _, o⟩ | _ <;> try rfl
  simp only [Receiver.after]
  split <;> rfl

theorem Effect.held {t : Tid k} {rand : ℕ} {m m' : Memory k} {pc next : Pc k}
    (effect : Effect t rand m pc m' next) : held next = held pc := by
  cases effect <;> rfl

theorem disciplined (k : ℕ) : (program k).Disciplined fun _ => held := by
  apply Program.Disciplined.of_stack
  case acquire =>
    intro t pc lock next here
    cases pc
    case send site info at' => cases at' <;> cases here <;> rfl
    case receive receiver at' =>
      cases at' <;> cases here
      rfl
    case finish info at' =>
      cases at' <;> cases here
      rfl
    all_goals cases here <;> rfl
  case release =>
    intro t pc lock next here
    cases pc
    case send site info at' =>
      cases at' <;> cases here
      case unlockCond => exact ⟨rfl, by simp [held, SendAt.held]⟩
      case unlock => rw [held_after_send]; exact ⟨rfl, List.not_mem_nil⟩
    case receive receiver at' =>
      cases at' <;> cases here
      rw [held_after_receive]
      exact ⟨rfl, List.not_mem_nil⟩
    case finish info at' => cases at' <;> cases here <;> exact ⟨rfl, List.not_mem_nil⟩
    all_goals cases here <;> exact ⟨rfl, List.not_mem_nil⟩
  case sleep =>
    intro t pc chan lock next here
    cases sleeps_of_instr here <;> exact ⟨List.mem_singleton_self _, rfl⟩
  case wakeup =>
    intro t pc chan next here
    cases pc
    case send site info at' => cases at' <;> cases here <;> rfl
    case receive receiver at' =>
      cases at' <;> cases here
      rfl
    case finish info at' => cases at' <;> cases here
    all_goals cases here
  case exec =>
    intro t pc effect input m m' next here run
    exact (effect_of_exec here run).held

section
variable {ok : State k → Tid k × ℕ → Prop} {s s' : State k} {t : Tid k} {rand : ℕ}

theorem owned_of_launched (reach : (launches k).ReachUnder ok s) : s.Owned fun _ => held := by
  refine Program.owned_of_reach (disciplined k) (fun s launched => ?_) reach
  refine Threads.owned_start launched.owner fun t => ⟨_, launched.thread t, ?_⟩
  cases t <;> rfl

theorem sleptAt_of_launched (reach : (launches k).ReachUnder ok s) : (program k).SleptAt s :=
  Program.sleptAt_of_reach (fun _ launched => Program.sleptAt_start fun t => ⟨_, launched.thread t⟩) reach

theorem owned_of_reach (reach : (simulation k).ReachUnder ok s) : s.Owned fun _ => held :=
  owned_of_launched (launches_of_simulation reach)

theorem sleptAt_of_reach (reach : (simulation k).ReachUnder ok s) : (program k).SleptAt s :=
  sleptAt_of_launched (launches_of_simulation reach)

theorem sleepsOn_of_asleep (slept : (program k).SleptAt s) {pc : Pc k} {chan : Chan k} {lock : Lock k}
    (asleep : s.thread t = .asleep chan lock pc) : pc.sleepsOn = some (chan, lock) := by
  obtain ⟨before, here⟩ := slept.asleep asleep
  exact sleepsOn_of_sleep here

/-- A thread runs unless it is at the test of a loop around a wait. -/
theorem running_of_sleepsOn (slept : (program k).SleptAt s) (never : (s.pc t).sleepsOn = none) :
    s.thread t = .run (s.pc t) := by
  cases doing : s.thread t with
  | run pc => rw [Threads.pc_of_run doing]
  | asleep chan lock pc =>
    rw [Threads.pc, doing] at never
    cases (sleepsOn_of_asleep slept doing).symm.trans never
  | relock lock pc =>
    rw [Threads.pc, doing] at never
    obtain ⟨before, chan, here⟩ := slept.relock doing
    cases (sleepsOn_of_sleep here).symm.trans never

/-- Seen from the statements, a step goes on without touching the memory, or is
one of the effects. -/
theorem step_cases (step : (program k).Step t rand s s') :
    (s'.mem = s.mem ∧ s'.pc = s.pc) ∨
    (s'.mem = s.mem ∧ ∃ next, (instr t (s.pc t)).target = some next ∧
      s'.pc = Function.update s.pc t next) ∨
    ∃ next, s.thread t = .run (s.pc t) ∧ Effect t rand s.mem (s.pc t) s'.mem next ∧
      s'.pc = Function.update s.pc t next := by
  rcases step.view with ⟨same, stays, _⟩ | target | ⟨effect, next, at', here, run, moved⟩
  · exact Or.inl ⟨same, stays⟩
  · exact Or.inr (Or.inl target)
  · exact Or.inr (Or.inr ⟨next, at', effect_of_exec here run, moved⟩)

end

end DeviceProgramming.Offices
