import DeviceProgramming.Machine.Deadlock
import DeviceProgramming.Offices.Counting

namespace DeviceProgramming.Offices

variable {k : ℕ} {s s' : State k} {t : Tid k} {rand : ℕ} {next : Pc k}

/-- What a thread waits for that sleeps before a test: it would sleep again as
long as this holds. -/
def Pc.Waits (m : Memory k) : Pc k → Prop
  | send site info .test => (m.buf (site.queue info)).count = (m.buf (site.queue info)).dim
  | receive receiver .test => (m.buf receiver.queue).count = 0
  | officeTest o => m.urgent o = 0 ∧ m.normal = 0
  | specialTest => m.urgent numOffices = 0
  | _ => True

def Lock.rank : Lock k → ℕ
  | buffer _ | numStudents => 0
  | cond => 1

theorem done_of_exec {pc : Pc k} {m : Memory k} {effect : ℕ → Memory k → Option (Memory k × Pc k)}
    (here : instr t pc = .exec effect) (never : ∀ input, effect input m = none) : pc.Done := by
  have stuck := never 0
  cases pc
  case send site info at' => cases at' <;> cases here <;> cases stuck
  case receive receiver at' => cases at' <;> cases here <;> cases stuck
  case finish info at' =>
    cases at' <;> cases here
    case done => trivial
    all_goals cases stuck
  all_goals
    cases here
    try cases stuck

theorem ordered (k : ℕ) : (program k).Ordered (fun _ => held) Lock.rank 1 := by
  constructor
  · intro l
    cases l <;> simp [Lock.rank]
  · intro t pc lock next here l holds
    change instr t pc = _ at here
    cases pc
    case send site info at' =>
      cases at' <;> cases here
      case lock => cases holds
      case lockCond =>
        cases List.mem_singleton.mp holds
        exact Nat.zero_lt_one
    case receive receiver at' =>
      cases at' <;> cases here
      cases holds
    case finish info at' =>
      cases at' <;> cases here
      cases holds
    all_goals
      cases here
      try cases holds
  · intro t pc chan lock next here l holds
    cases sleeps_of_instr here <;> exact List.mem_singleton.mp holds
  · intro t pc effect m here never
    have done := done_of_exec here never
    cases pc
    case finish info at' =>
      cases at' <;> first | rfl | exact done.elim
    all_goals exact done.elim

theorem waits_congr {pc : Pc k} {m m' : Memory k} (waits : pc.Waits m) (urgent : m'.urgent = m.urgent)
    (normal : m'.normal = m.normal) (buf : ∀ q, pc.queue = some q → m'.buf q = m.buf q) : pc.Waits m' := by
  cases pc
  case send site info at' =>
    cases at'
    case test =>
      simp only [Pc.Waits, buf _ rfl] at waits ⊢
      exact waits
    all_goals trivial
  case receive receiver at' =>
    cases at'
    case test =>
      simp only [Pc.Waits, buf _ rfl] at waits ⊢
      exact waits
    all_goals trivial
  case officeTest | specialTest =>
    simp only [Pc.Waits, urgent, normal] at waits ⊢
    exact waits
  all_goals trivial

/-- A change of one queue does not matter to a thread that waits elsewhere. -/
theorem waits_other {pc : Pc k} {m m' : Memory k} {q : Queue k} (waits : pc.Waits m)
    (elsewhere : pc.queue ≠ some q) (urgent : m'.urgent = m.urgent) (normal : m'.normal = m.normal)
    (others : ∀ other, other ≠ q → m'.buf other = m.buf other) : pc.Waits m' := by
  refine waits_congr waits urgent normal fun other works => others other ?_
  rintro rfl
  exact elsewhere works

theorem sleepsOn_cases {pc : Pc k} {chan : Chan k} {lock : Lock k} (sleeps : pc.sleepsOn = some (chan, lock)) :
    (∃ site info, pc = .send site info .test ∧ chan = .notfull (site.queue info)) ∨
    (∃ receiver, pc = .receive receiver .test ∧ chan = .notempty receiver.queue) ∨
    (∃ o, pc = .officeTest o ∧ chan = .cond) ∨ (pc = .specialTest ∧ chan = .cond) := by
  cases pc
  case send site info at' =>
    cases at' <;> cases sleeps
    exact Or.inl ⟨site, info, rfl, rfl⟩
  case receive receiver at' =>
    cases at' <;> cases sleeps
    exact Or.inr (Or.inl ⟨receiver, rfl, rfl⟩)
  case officeTest o =>
    cases sleeps
    exact Or.inr (Or.inr (Or.inl ⟨o, rfl, rfl⟩))
  case specialTest =>
    cases sleeps
    exact Or.inr (Or.inr (Or.inr ⟨rfl, rfl⟩))
  all_goals cases sleeps

theorem sleepsOn_queue {pc : Pc k} {chan : Chan k} {lock : Lock k} {q : Queue k}
    (sleeps : pc.sleepsOn = some (chan, lock)) (works : pc.queue = some q) :
    (∃ site info, pc = .send site info .test ∧ site.queue info = q ∧ chan = .notfull q) ∨
    (∃ receiver, pc = .receive receiver .test ∧ receiver.queue = q ∧ chan = .notempty q) := by
  rcases sleepsOn_cases sleeps with ⟨site, info, rfl, rfl⟩ | ⟨receiver, rfl, rfl⟩ | ⟨o, rfl, _⟩ | ⟨rfl, _⟩
  · cases Option.some.inj works
    exact Or.inl ⟨site, info, rfl, rfl, rfl⟩
  · cases Option.some.inj works
    exact Or.inr ⟨receiver, rfl, rfl, rfl⟩
  · cases works
  · cases works

/-- A statement that ends the wait of a sleeping thread leads to one that wakes it. -/
theorem Effect.waits {m m' : Memory k} {pc asleep : Pc k} (effect : Effect t rand m pc m' next)
    (relies : pc.Relies m) (fresh : ∀ q, pc.creates = some q → asleep.queue ≠ some q) {chan : Chan k}
    {lock : Lock k} (sleeps : asleep.sleepsOn = some (chan, lock)) (waits : asleep.Waits m) :
    asleep.Waits m' ∨ ∃ after, instr t next = .wakeup chan after := by
  cases effect
  case studentInit i =>
    exact Or.inl (waits_other waits (fresh _ rfl) rfl rfl fun _ other => Memory.create_other _ other _)
  case officeInit o =>
    exact Or.inl (waits_other waits (fresh _ rfl) rfl rfl fun _ other => Memory.create_other _ other _)
  case fill site info =>
    by_cases works : asleep.queue = some (site.queue info)
    · rcases sleepsOn_queue sleeps works with ⟨_, _, rfl, queue, _⟩ | ⟨_, rfl, _, rfl⟩
      · simp only [Pc.Waits, queue] at waits
        exact absurd waits relies
      · exact Or.inr ⟨_, rfl⟩
    · exact Or.inl (waits_other waits works rfl rfl fun _ other => Memory.fill_other _ other _)
  case take receiver =>
    by_cases works : asleep.queue = some receiver.queue
    · rcases sleepsOn_queue sleeps works with ⟨_, _, rfl, _, rfl⟩ | ⟨_, rfl, queue, _⟩
      · exact Or.inr ⟨_, rfl⟩
      · simp only [Pc.Waits, queue] at waits
        exact absurd waits relies
    · exact Or.inl (waits_other waits works rfl rfl fun _ other => Memory.take_other _ other _)
  case token site info =>
    obtain ⟨buf, _⟩ := m.token_frame (site.queue info) info
    rcases sleepsOn_cases sleeps with ⟨site', info', rfl, rfl⟩ | ⟨receiver, rfl, rfl⟩ |
      ⟨o, rfl, rfl⟩ | ⟨rfl, rfl⟩
    · refine Or.inl ?_
      simp only [Pc.Waits, buf] at waits ⊢
      exact waits
    · refine Or.inl ?_
      simp only [Pc.Waits, buf] at waits ⊢
      exact waits
    · exact Or.inr ⟨_, rfl⟩
    · exact Or.inr ⟨_, rfl⟩
  case claimUrgent o urgent =>
    have bound : (o : ℕ) ≠ numOffices := Nat.ne_of_lt o.isLt
    refine Or.inl ?_
    rcases sleepsOn_cases sleeps with ⟨site', info', rfl, rfl⟩ | ⟨receiver, rfl, rfl⟩ |
      ⟨o', rfl, rfl⟩ | ⟨rfl, rfl⟩
    · exact waits
    · exact waits
    · have other : (o' : ℕ) ≠ o := by
        intro same
        rw [← same] at urgent
        exact urgent waits.1
      refine ⟨?_, waits.2⟩
      exact (Function.update_of_ne other _ _).trans waits.1
    · exact (Function.update_of_ne bound.symm _ _).trans waits
  case claimNormal o none =>
    have some : m.normal ≠ 0 := fun zero => relies ⟨none, zero⟩
    refine Or.inl ?_
    rcases sleepsOn_cases sleeps with ⟨site', info', rfl, rfl⟩ | ⟨receiver, rfl, rfl⟩ |
      ⟨o', rfl, rfl⟩ | ⟨rfl, rfl⟩
    · exact waits
    · exact waits
    · exact absurd waits.2 some
    · exact waits
  case specialClaim =>
    refine Or.inl ?_
    rcases sleepsOn_cases sleeps with ⟨site', info', rfl, rfl⟩ | ⟨receiver, rfl, rfl⟩ |
      ⟨o', rfl, rfl⟩ | ⟨rfl, rfl⟩
    · exact waits
    · exact waits
    · have other : (o' : ℕ) ≠ numOffices := Nat.ne_of_lt o'.isLt
      exact ⟨(Function.update_of_ne other _ _).trans waits.1, waits.2⟩
    · exact absurd waits relies
  all_goals exact Or.inl (waits_congr waits rfl rfl fun _ _ => rfl)

theorem waits_of_sleep {m : Memory k} {pc : Pc k} {chan : Chan k} {lock : Lock k}
    (here : instr t pc = .sleep chan lock next) (relies : pc.Relies m) : next.Waits m := by
  cases sleeps_of_instr here <;> exact relies

/-- A sleeping thread waits for something that is still to come, or is woken next. -/
abbrev attended (s : State k) : Prop := (program k).Attended (fun _ pc m => pc.Waits m) s

theorem attended_step {stages : Fin k → Stage} (delivers : Delivers stages s) (slept : (program k).SleptAt s)
    (before : attended s) (step : (program k).Step t rand s s') : attended s' := by
  have point {u : Tid k} {a : Activity (Lock k) (Chan k) (Pc k)} (doing : s.thread u = a) : s.pc u = a.pc := by
    rw [Threads.pc, doing]
  refine step.attended before (fun pc chan lock next running here => ?_) fun u chan lock pc asleep waits => ?_
  · have relies := delivers.relies t
    rw [point running] at relies
    exact waits_of_sleep here relies
  · rcases step.mem_cases with same | ⟨at', effect, next, running, here, run, moved⟩
    · rw [same]
      exact Or.inl waits
    · have relies := delivers.relies t
      rw [point running] at relies
      have effect := effect_of_exec here run
      have fresh (q : Queue k) (creates : at'.creates = some q) : pc.queue ≠ some q := by
        intro works
        refine delivers.placed.unready (t := t) (by rw [point running]; exact creates) ?_
        exact delivers.placed.uses u q (by rw [point asleep]; exact works)
      rcases effect.waits relies fresh (sleepsOn_of_asleep slept asleep) waits with still | ⟨after, wakes⟩
      · exact Or.inl still
      · exact Or.inr ⟨next, after, moved, wakes⟩

theorem attended_of_reach {ok : State k → Tid k × ℕ → Prop} (reach : (simulation k).ReachUnder ok s) :
    attended s := by
  refine reach.invariant (fun s opening t chan lock pc asleep => ?_) fun s s' label earlier before _ moved => ?_
  · rw [opening.thread] at asleep
    cases asleep
  · obtain ⟨_, step⟩ := Program.step_of_next moved
    obtain ⟨stages, delivers, _⟩ := delivers_of_reach earlier
    exact attended_step delivers (sleptAt_of_reach earlier) before step

/-- Every thread is done or asleep with nothing that wakes it. -/
def Idle (s : State k) : Prop :=
  ∀ t, (∃ chan lock, (s.pc t).sleepsOn = some (chan, lock) ∧ (s.pc t).Waits s.mem) ∨ (s.pc t).Done

/-- A live process in which no thread can move is idle. -/
theorem idle_of_stuck {ok : State k → Tid k × ℕ → Prop} (reach : (simulation k).ReachUnder ok s)
    (live : s.mem.killed = false) (stuck : ∀ label, (simulation k).next s label = none) : Idle s := by
  have slept := sleptAt_of_reach reach
  have blocked (t : Tid k) : (program k).Blocked s t :=
    Program.blocked_of_stuck live fun input => stuck (t, input)
  have free := Program.free_of_blocked (ordered k) (owned_of_reach reach) slept blocked
  intro t
  cases blocked t with
  | @asleep chan lock pc doing =>
    rw [Threads.pc_of_asleep doing]
    refine Or.inl ⟨chan, lock, sleepsOn_of_asleep slept doing, ?_⟩
    rcases attended_of_reach reach t chan lock pc doing with waits | ⟨u, at', next, running, wakes⟩
    · exact waits
    · cases blocked u with
      | asleep other | relock other => cases running.symm.trans other
      | acquire other here | exec other here =>
        cases running.symm.trans other
        cases wakes.symm.trans here
  | relock doing taken => exact absurd (free _) taken
  | acquire doing here taken => exact absurd (free _) taken
  | @exec pc effect doing here never =>
    rw [Threads.pc_of_run doing]
    exact Or.inr (done_of_exec here never)

end DeviceProgramming.Offices
